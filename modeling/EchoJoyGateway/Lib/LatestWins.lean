import Mathlib.Order.Lattice

/-!
# A register that keeps the latest version

Values arrive in any order, repeated or not at all; the register keeps one unless the
new one has an older version.
-/

namespace EchoJoyGateway.LatestWins

open List

variable {α β : Type*} [LinearOrder β] (version : α → β)

def adopt (current : Option α) (x : α) : Option α :=
  match current with
  | none => some x
  | some y => if version x < version y then some y else some x

def latest (arrivals : List α) : Option α := arrivals.foldl (adopt version) none

variable {version}

variable {arrivals : List α} {m : α}

theorem foldl_adopt {current : Option α} (h : arrivals.foldl (adopt version) current = some m) :
    (m ∈ arrivals ∨ current = some m) ∧ (∀ x ∈ arrivals, version x ≤ version m) ∧
      ∀ y ∈ current, version y ≤ version m := by
  induction arrivals generalizing current with
  | nil =>
    obtain rfl : current = some m := h
    refine ⟨.inr rfl, nofun, fun y hy => ?_⟩
    rw [Option.some.inj hy]
  | cons x arrivals ih =>
    obtain ⟨hmem, hall, hcurrent⟩ := ih h
    have hx : version x ≤ version m := by
      cases current with
      | none => exact hcurrent x rfl
      | some y =>
        unfold adopt at hcurrent
        dsimp only at hcurrent
        split at hcurrent
        · rename_i hlt
          exact hlt.le.trans (hcurrent y rfl)
        · exact hcurrent x rfl
    refine ⟨?_, forall_mem_cons.mpr ⟨hx, hall⟩, ?_⟩
    · rcases hmem with hlater | hadopted
      · exact .inl (mem_cons_of_mem x hlater)
      · cases current with
        | none => exact .inl (Option.some.inj hadopted ▸ .head _)
        | some y =>
          unfold adopt at hadopted
          dsimp only at hadopted
          split at hadopted
          · exact .inr hadopted
          · exact .inl (Option.some.inj hadopted ▸ .head _)
    · rintro y rfl
      unfold adopt at hcurrent
      dsimp only at hcurrent
      split at hcurrent
      · exact hcurrent y rfl
      · rename_i hge
        exact (not_lt.mp hge).trans hx

theorem latest_eq_some (h : latest version arrivals = some m) :
    m ∈ arrivals ∧ ∀ x ∈ arrivals, version x ≤ version m := by
  obtain ⟨hmem, hall, -⟩ := foldl_adopt h
  rcases hmem with hmem | hnone
  · exact ⟨hmem, hall⟩
  · cases hnone

theorem latest_append (front : List α) (x : α) :
    latest version (front ++ [x]) = adopt version (latest version front) x := by
  unfold latest
  rw [foldl_append]
  rfl

theorem exists_latest {x : α} (hx : x ∈ arrivals) : ∃ m, latest version arrivals = some m := by
  have hsome : ∀ (rest : List α) (y : α), ∃ m, rest.foldl (adopt version) (some y) = some m := by
    intro rest
    induction rest with
    | nil => exact fun y => ⟨y, rfl⟩
    | cons z rest ih =>
      intro y
      rw [foldl_cons]
      unfold adopt
      dsimp only
      split
      · exact ih y
      · exact ih z
  cases arrivals with
  | nil => cases hx
  | cons y rest => exact hsome rest y

/-- Where a version determines the value, the register keeps the arrival of the
greatest version, in whatever order they came. -/
theorem latest_eq_of_greatest (hm : m ∈ arrivals)
    (hgreatest : ∀ x ∈ arrivals, version x ≤ version m)
    (hdetermined : ∀ x ∈ arrivals, version x = version m → x = m) :
    latest version arrivals = some m := by
  obtain ⟨y, hy⟩ := @exists_latest α β _ version arrivals m hm
  obtain ⟨hmem, hall⟩ := latest_eq_some hy
  rw [hy, hdetermined y hmem (le_antisymm (hgreatest y hmem) (hall m hm))]

end EchoJoyGateway.LatestWins
