import Mathlib.Data.List.AList

/-!
# Maps of maps

A map from groups to buckets, each bucket a map from ids to values, with the
operations of a nested Go map: a missing bucket reads as an empty one, a write
creates the bucket, and a bucket is deleted by hand once it is empty.
-/

namespace Buckets

open List

variable {κ ι ν : Type*} [DecidableEq κ]

abbrev Bucket (ι ν : Type*) := AList fun _ : ι => ν

abbrev Table (κ ι ν : Type*) := AList fun _ : κ => Bucket ι ν

def bucket (m : Table κ ι ν) (g : κ) : Bucket ι ν := (m.lookup g).getD ∅

def trim (m : Table κ ι ν) (g : κ) : Table κ ι ν :=
  if (bucket m g).keys = [] then m.erase g else m

def NoEmpty (m : Table κ ι ν) : Prop := ∀ g b, m.lookup g = some b → b.keys ≠ []

/-- No bucket but that of `g` is empty. -/
def NoEmptyBut (m : Table κ ι ν) (g : κ) : Prop := ∀ h b, h ≠ g → m.lookup h = some b → b.keys ≠ []

variable {m : Table κ ι ν} {g h : κ}

@[simp] theorem bucket_insert_self (b : Bucket ι ν) : bucket (m.insert g b) g = b := by
  simp [bucket]

theorem bucket_insert_of_ne (hne : h ≠ g) (b : Bucket ι ν) :
    bucket (m.insert g b) h = bucket m h := by
  simp [bucket, AList.lookup_insert_ne hne]

@[simp] theorem bucket_erase_self : bucket (m.erase g) g = ∅ := by
  simp [bucket]

theorem bucket_erase_of_ne (hne : h ≠ g) : bucket (m.erase g) h = bucket m h := by
  simp [bucket, AList.lookup_erase_ne hne]

theorem noEmpty_empty : NoEmpty (∅ : Table κ ι ν) := nofun

theorem noEmpty_insert (hm : NoEmptyBut m g) {b : Bucket ι ν} (hb : b.keys ≠ []) :
    NoEmpty (m.insert g b) := by
  intro h b' hb'
  rcases eq_or_ne h g with rfl | hne
  · rw [AList.lookup_insert] at hb'
    cases hb'
    exact hb
  · rw [AList.lookup_insert_ne hne] at hb'
    exact hm h b' hne hb'

theorem NoEmpty.but (hm : NoEmpty m) : NoEmptyBut m g := fun h b _ => hm h b

theorem NoEmptyBut.erase (hm : NoEmptyBut m g) : NoEmpty (m.erase g) := by
  intro h b hb
  rcases eq_or_ne h g with rfl | hne
  · rw [AList.lookup_erase] at hb
    cases hb
  · rw [AList.lookup_erase_ne hne] at hb
    exact hm h b hne hb

theorem NoEmptyBut.trim (hm : NoEmptyBut m g) : NoEmpty (trim m g) := by
  unfold Buckets.trim
  split
  · exact hm.erase
  · rename_i hkeys
    intro h b hb
    rcases eq_or_ne h g with rfl | hne
    · rwa [bucket, hb] at hkeys
    · exact hm h b hne hb

variable [DecidableEq ι] {i j : ι} {v : ν}

def find (m : Table κ ι ν) (g : κ) (i : ι) : Option ν := (bucket m g).lookup i

def put (m : Table κ ι ν) (g : κ) (i : ι) (v : ν) : Table κ ι ν :=
  m.insert g ((bucket m g).insert i v)

def delete (m : Table κ ι ν) (g : κ) (i : ι) : Table κ ι ν :=
  if g ∈ m then m.insert g ((bucket m g).erase i) else m

theorem find_put : find (put m g i v) h j = if h = g ∧ j = i then some v else find m h j := by
  unfold find put
  rcases eq_or_ne h g with rfl | hne
  · rcases eq_or_ne j i with rfl | hji
    · simp
    · simp [hji]
  · simp [bucket_insert_of_ne hne, hne]

theorem bucket_delete : bucket (delete m g i) h =
    if h = g then (bucket m g).erase i else bucket m h := by
  unfold delete
  split
  · rcases eq_or_ne h g with rfl | hne
    · simp
    · simp [bucket_insert_of_ne hne, hne]
  · rename_i hmem
    rcases eq_or_ne h g with rfl | hne
    · have hnone : bucket m h = ∅ := by simp [bucket, AList.lookup_eq_none.mpr hmem]
      rw [if_pos rfl, hnone]
      rfl
    · rw [if_neg hne]

theorem find_delete : find (delete m g i) h j = if h = g ∧ j = i then none else find m h j := by
  unfold find
  rw [bucket_delete]
  rcases eq_or_ne h g with rfl | hne
  · rcases eq_or_ne j i with rfl | hji
    · simp
    · simp [hji]
  · simp [hne]

theorem find_trim : find (trim m g) h j = find m h j := by
  unfold trim
  split
  · rename_i hempty
    unfold find
    rcases eq_or_ne h g with rfl | hne
    · rw [bucket_erase_self, AList.lookup_empty, eq_comm, AList.lookup_eq_none,
        AList.mem_keys, hempty]
      exact not_mem_nil
    · rw [bucket_erase_of_ne hne]
  · rfl

theorem mem_bucket_iff : i ∈ bucket m g ↔ ∃ v, find m g i = some v := by
  rw [← AList.lookup_isSome, Option.isSome_iff_exists]
  rfl

theorem NoEmpty.put (hm : NoEmpty m) : NoEmpty (put m g i v) := by
  refine noEmpty_insert hm.but ?_
  exact cons_ne_nil _ _

theorem NoEmptyBut.delete (hm : NoEmptyBut m g) : NoEmptyBut (delete m g i) g := by
  intro h b hne hb
  unfold Buckets.delete at hb
  split at hb
  · rw [AList.lookup_insert_ne hne] at hb
    exact hm h b hne hb
  · exact hm h b hne hb

section Fill

variable {α : Type*} (key : α → ι) (val : α → ν)

def fill (b : Bucket ι ν) (xs : List α) : Bucket ι ν :=
  xs.foldl (fun b x => b.insert (key x) (val x)) b

theorem lookup_fill_of_not_mem {b : Bucket ι ν} {xs : List α} {i : ι} (h : i ∉ xs.map key) :
    (fill key val b xs).lookup i = b.lookup i := by
  induction xs generalizing b with
  | nil => rfl
  | cons x rest ih =>
    rw [map_cons, mem_cons, not_or] at h
    exact (ih h.2).trans (AList.lookup_insert_ne h.1)

theorem lookup_fill_of_mem {b : Bucket ι ν} {xs : List α} (hnodup : (xs.map key).Nodup) {x : α}
    (hx : x ∈ xs) : (fill key val b xs).lookup (key x) = some (val x) := by
  induction xs generalizing b with
  | nil => cases hx
  | cons y rest ih =>
    rw [map_cons, nodup_cons] at hnodup
    rcases mem_cons.mp hx with rfl | hx
    · exact (lookup_fill_of_not_mem key val hnodup.1).trans (AList.lookup_insert _)
    · exact ih hnodup.2 hx

theorem lookup_fill_eq_some {xs : List α} (hnodup : (xs.map key).Nodup) {i : ι} {v : ν} :
    (fill key val ∅ xs).lookup i = some v ↔ ∃ x ∈ xs, key x = i ∧ val x = v := by
  constructor
  · intro h
    by_cases hi : i ∈ xs.map key
    · obtain ⟨x, hx, rfl⟩ := mem_map.mp hi
      rw [lookup_fill_of_mem key val hnodup hx] at h
      exact ⟨x, hx, rfl, Option.some.inj h⟩
    · rw [lookup_fill_of_not_mem key val hi] at h
      cases h
  · rintro ⟨x, hx, rfl, rfl⟩
    exact lookup_fill_of_mem key val hnodup hx

end Fill

section All

variable {P : ν → Prop}

def All (P : ν → Prop) (m : Table κ ι ν) : Prop := ∀ g i v, find m g i = some v → P v

theorem All.empty : All P (∅ : Table κ ι ν) := nofun

theorem All.put (h : All P m) (hv : P v) : All P (put m g i v) := by
  intro g' i' v' hfind
  rw [find_put] at hfind
  split at hfind
  · exact Option.some.inj hfind ▸ hv
  · exact h g' i' v' hfind

theorem All.delete (h : All P m) : All P (delete m g i) := by
  intro g' i' v' hfind
  rw [find_delete] at hfind
  split at hfind
  · cases hfind
  · exact h g' i' v' hfind

theorem All.trim (h : All P m) : All P (trim m g) := by
  intro g' i' v' hfind
  rw [find_trim] at hfind
  exact h g' i' v' hfind

theorem All.erase (h : All P m) : All P (m.erase g) := by
  intro g' i' v' hfind
  rcases eq_or_ne g' g with rfl | hne
  · rw [find, bucket_erase_self] at hfind
    cases hfind
  · rw [find, bucket_erase_of_ne hne] at hfind
    exact h g' i' v' hfind

theorem All.insert (h : All P m) {b : Bucket ι ν} (hb : ∀ i v, b.lookup i = some v → P v) :
    All P (m.insert g b) := by
  intro g' i' v' hfind
  rcases eq_or_ne g' g with rfl | hne
  · rw [find, bucket_insert_self] at hfind
    exact hb i' v' hfind
  · rw [find, bucket_insert_of_ne hne] at hfind
    exact h g' i' v' hfind

end All

end Buckets
