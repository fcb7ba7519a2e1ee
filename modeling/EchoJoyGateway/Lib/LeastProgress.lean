import Mathlib.Tactic.Ring

/-!
# Least-progress allocation

Members of a set each own a fixed stride. A service moves one member by its
stride, and only a member that nobody trails may be served. The first two
invariants below bound how far apart the members can be, and how long one of
them can be served without a break. The third bounds how much a member that
joins ahead of another can be served before the other catches up, when a long
row of services also entitles the next member to a service.
-/

namespace EchoJoyGateway.LeastProgress

variable {ι : Type*}

/-- Nobody leads another member by more than its own stride. -/
def Spread (S : Set ι) (stride pos : ι → Nat) : Prop := ∀ i ∈ S, ∀ j ∈ S, pos i ≤ pos j + stride i

def Least (S : Set ι) (pos : ι → Nat) (f : ι) : Prop := f ∈ S ∧ ∀ j ∈ S, pos f ≤ pos j

/-- Before its last `count` services, `f` was at most one stride of any other
member behind that member. -/
def Streak (S : Set ι) (stride pos : ι → Nat) (f : ι) (count : Nat) : Prop :=
  ∀ a ∈ S, a ≠ f → pos a + count * stride f ≤ pos f + stride a

variable {S : Set ι} {stride pos : ι → Nat} {f : ι} {count : Nat}

theorem spread_of_eq (h : ∀ i ∈ S, ∀ j ∈ S, pos i = pos j) : Spread S stride pos := by
  intro i hi j hj
  rw [h i hi j hj]
  exact Nat.le_add_right _ _

/-- A member that is least again after `count` services in a row used them to
cover at most one stride of each other member. -/
theorem Streak.mul_stride_le (h : Streak S stride pos f count) (hf : Least S pos f)
    {a : ι} (ha : a ∈ S) (haf : a ≠ f) : count * stride f ≤ stride a := by
  have haf' := h a ha haf
  have hle := hf.2 a ha
  omega

theorem Streak.mono (h : Streak S stride pos f count) {fewer : Nat} (hle : fewer ≤ count) :
    Streak S stride pos f fewer := by
  intro a ha haf
  have haf' := h a ha haf
  have hmul := Nat.mul_le_mul_right (stride f) hle
  omega

variable [DecidableEq ι]

def serve (stride pos : ι → Nat) (f : ι) : ι → Nat := Function.update pos f (pos f + stride f)

@[simp] theorem serve_self : serve stride pos f f = pos f + stride f := by
  simp [serve]

@[simp] theorem serve_of_ne {a : ι} (h : a ≠ f) : serve stride pos f a = pos a := by
  simp [serve, h]

theorem Spread.serve (h : Spread S stride pos) (hf : Least S pos f) :
    Spread S stride (serve stride pos f) := by
  intro i hi j hj
  have hij := h i hi j hj
  have hfj := hf.2 j hj
  by_cases hif : i = f <;> by_cases hjf : j = f
  · subst hif hjf
    simp
  · subst hif
    simp only [serve_self, serve_of_ne hjf]
    omega
  · subst hjf
    simp only [serve_self, serve_of_ne hif]
    omega
  · simpa [hif, hjf] using hij

theorem Streak.start (h : Spread S stride pos) (hf : f ∈ S) :
    Streak S stride (LeastProgress.serve stride pos f) f 1 := by
  intro a ha haf
  have haf' := h a ha f hf
  simp only [serve_self, serve_of_ne haf]
  omega

theorem Streak.serve (h : Streak S stride pos f count) :
    Streak S stride (LeastProgress.serve stride pos f) f (count + 1) := by
  intro a ha haf
  have haf' := h a ha haf
  simp only [serve_self, serve_of_ne haf, Nat.add_mul]
  omega

/-- `late` joined no lower than `early`, and `row` counts the services of `last` without a break.
Once `late` was served, the row of `early` began after that service. -/
structure Late (stride pos count : ι → Nat) (last : ι) (row : Nat) (late early : ι) : Prop where
  ahead : pos early + count late * stride late ≤ pos late + count early * stride early
  bounded : count late * stride late ≤ count early * stride early + stride late
  rowed : count late = 0 ∨ (last = early →
    count late * stride late + row * stride early ≤ count early * stride early + stride late)

def tally (count : ι → Nat) (f : ι) : ι → Nat := Function.update count f (count f + 1)

@[simp] theorem tally_self {n : ι → Nat} : tally n f f = n f + 1 := by
  simp [tally]

@[simp] theorem tally_of_ne {n : ι → Nat} {a : ι} (h : a ≠ f) : tally n f a = n a := by
  simp [tally, h]

section Late

variable {served : ι → Nat} {last late early : ι} {row row' : Nat}

theorem Late.serve_late (h : Late stride pos served last row late early) (hne : early ≠ late)
    (hturn : pos late ≤ pos early ∨ (last = early ∧ stride late ≤ row * stride early)) :
    Late stride (LeastProgress.serve stride pos late) (tally served late) late row' late early := by
  have hle : served late * stride late ≤ served early * stride early := by
    rcases hturn with hleast | ⟨hlast, hrow⟩
    · have := h.ahead
      omega
    · rcases h.rowed with hzero | hrowed
      · simp [hzero]
      · have := hrowed hlast
        omega
  have hahead := h.ahead
  refine ⟨?_, ?_, .inr fun heq => absurd heq.symm hne⟩
  · simp only [serve_self, serve_of_ne hne, tally_self, tally_of_ne hne, Nat.add_mul]
    omega
  · simp only [tally_self, tally_of_ne hne, Nat.add_mul]
    omega

theorem Late.serve_early (h : Late stride pos served last row late early) (hne : late ≠ early)
    (hrow : if last = early then row' ≤ row + 1 else row' ≤ 1) :
    Late stride (LeastProgress.serve stride pos early) (tally served early) early row'
      late early := by
  have hahead := h.ahead
  have hbounded := h.bounded
  refine ⟨?_, ?_, ?_⟩
  · simp only [serve_self, serve_of_ne hne, tally_self, tally_of_ne hne, Nat.add_mul]
    omega
  · simp only [tally_self, tally_of_ne hne, Nat.add_mul]
    omega
  · simp only [tally_self, tally_of_ne hne, Nat.add_mul]
    rcases h.rowed with hzero | hrowed
    · exact .inl hzero
    · refine .inr fun _ => ?_
      split at hrow
      · rename_i hlast
        have hmul := Nat.mul_le_mul_right (stride early) hrow
        have := hrowed hlast
        rw [Nat.add_mul] at hmul
        omega
      · have hmul := Nat.mul_le_mul_right (stride early) hrow
        omega

theorem Late.serve_other (h : Late stride pos served last row late early) (hl : late ≠ f)
    (he : early ≠ f) :
    Late stride (LeastProgress.serve stride pos f) (tally served f) f row' late early := by
  refine ⟨?_, ?_, .inr fun heq => absurd heq.symm he⟩
  · simpa [serve_of_ne hl, serve_of_ne he, tally_of_ne hl, tally_of_ne he] using h.ahead
  · simpa [tally_of_ne hl, tally_of_ne he] using h.bounded

end Late

end EchoJoyGateway.LeastProgress
