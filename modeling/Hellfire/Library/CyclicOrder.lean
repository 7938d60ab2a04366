import Mathlib.Order.Lattice

/-!
Nodes on a circle, each with the next one: the arc between two points of the circle, how a
node is put in and taken out, and how many steps lead from one point to another.
-/

namespace Cyclic

variable {α : Type} [LinearOrder α]

/-- The points behind `x` and before `y`; from a point to itself these are all others. -/
def Arc (x y z : α) : Prop := x < z ∧ z < y ∨ y ≤ x ∧ (x < z ∨ z < y)

instance (x y z : α) : Decidable (Arc x y z) :=
  inferInstanceAs (Decidable (x < z ∧ z < y ∨ y ≤ x ∧ (x < z ∨ z < y)))

structure Ring (node : α → Prop) (next : α → α) : Prop where
  closed : ∀ {x}, node x → node (next x)
  clear : ∀ {x z}, node x → node z → ¬ Arc x (next x) z

variable {node node' : α → Prop} {next next' : α → α} {x y z p q new : α}

theorem arc_self : Arc x x z ↔ z ≠ x := by
  unfold Arc
  grind

theorem arc_shorten (inside : Arc x y z) (later : Arc z y p) : Arc x y p := by
  unfold Arc at *
  grind

theorem arc_unique (first : Arc x y z) (second : Arc p q z) (leftOut : ¬ Arc x y p)
    (rightOut : ¬ Arc x y q) (leftOut' : ¬ Arc p q x) (rightOut' : ¬ Arc p q y) : x = p := by
  unfold Arc at *
  grind

theorem arc_cut (inside : Arc p q new) (far : ¬ Arc p q z) : ¬ Arc p new z ∧ ¬ Arc new q z := by
  unfold Arc at *
  grind

theorem arc_join (first : ¬ Arc p new z) (second : ¬ Arc new q z) (other : z ≠ new) :
    ¬ Arc p q z := by
  unfold Arc at *
  grind

theorem arc_before (clear : ¬ Arc p q z) (inside : Arc y q z) (distinct : z ≠ p) : Arc y p z := by
  unfold Arc at *
  grind

theorem arc_other (distinct : z ≠ y) (far : ¬ Arc x y z) : Arc x z y := by
  unfold Arc at *
  grind

namespace Ring

theorem congr (ring : Ring node next) (same : ∀ x, node x → next' x = next x) : Ring node next' := by
  constructor
  · intro x here
    rw [same x here]
    exact ring.closed here
  · intro x z here other
    rw [same x here]
    exact ring.clear here other

theorem congr_node (ring : Ring node next) (same : ∀ x, node' x ↔ node x) : Ring node' next := by
  constructor
  · intro x here
    exact (same _).mpr (ring.closed ((same x).mp here))
  · intro x z here other
    exact ring.clear ((same x).mp here) ((same z).mp other)

theorem insert (ring : Ring node next) (here : node p) (inside : Arc p (next p) new)
    (atNew : next' new = next p) (before : next' p = new)
    (others : ∀ x, node x → x ≠ p → next' x = next x) :
    Ring (fun z => z = new ∨ node z) next' := by
  have fresh : ∀ {z}, node z → z ≠ new := by
    rintro z other rfl
    exact ring.clear here other inside
  have cut := fun {z} (other : node z) => arc_cut inside (ring.clear here other)
  constructor
  · rintro x (rfl | old)
    · rw [atNew]
      exact Or.inr (ring.closed here)
    · by_cases same : x = p
      · rw [same, before]
        exact Or.inl rfl
      · rw [others x old same]
        exact Or.inr (ring.closed old)
  · rintro x z (rfl | old) other
    · rw [atNew]
      rcases other with rfl | other
      · unfold Arc at *
        grind
      · exact (cut other).2
    · by_cases same : x = p
      · rw [same, before]
        rcases other with rfl | other
        · unfold Arc at *
          grind
        · exact (cut other).1
      · rw [others x old same]
        rcases other with rfl | other
        · intro inner
          apply same
          exact arc_unique inner inside (ring.clear old here) (ring.clear old (ring.closed here))
            (ring.clear here old) (ring.clear here (ring.closed old))
        · exact ring.clear old other

theorem remove (ring : Ring node next) (here : node p) (leads : next p = q) (other : q ≠ p)
    (before : next' p = next q) (others : ∀ x, node x → x ≠ p → x ≠ q → next' x = next x) :
    Ring (fun z => node z ∧ z ≠ q) next' := by
  have there : node q := leads ▸ ring.closed here
  have further : next q ≠ q := by
    intro fixed
    have clear := ring.clear there here
    rw [fixed, arc_self] at clear
    exact clear fun same => other same.symm
  have noOther : ∀ {x}, node x → x ≠ p → next x = q → False := by
    intro x old distinct leadsToo
    have clear := ring.clear old here
    have clear' := ring.clear here old
    rw [leadsToo] at clear
    rw [leads] at clear'
    by_cases same : x = q
    · rw [same] at leadsToo
      exact further leadsToo
    · unfold Arc at *
      grind
  constructor
  · rintro x ⟨old, distinct⟩
    by_cases same : x = p
    · rw [same, before]
      exact ⟨ring.closed there, further⟩
    · rw [others x old same distinct]
      exact ⟨ring.closed old, fun leadsToo => noOther old same leadsToo⟩
  · rintro x z ⟨old, distinct⟩ ⟨member, apart⟩
    by_cases same : x = p
    · rw [same, before]
      have first := ring.clear here member
      rw [leads] at first
      exact arc_join first (ring.clear there member) apart
    · rw [others x old same distinct]
      exact ring.clear old member

def gap (nodes : List α) (x y : α) : Nat := nodes.countP fun z => decide (Arc x y z)

theorem gap_le (nodes : List α) (x y : α) : gap nodes x y ≤ nodes.length :=
  List.countP_le_length

theorem gap_lt {nodes : List α} (inside : Arc x y z) (member : z ∈ nodes) :
    gap nodes z y < gap nodes x y := by
  have notSelf : ¬ Arc z y z := by
    unfold Arc at *
    grind
  obtain ⟨before, behind, rfl⟩ := List.append_of_mem member
  have weaker : ∀ part : List α, gap part z y ≤ gap part x y := by
    intro part
    apply List.countP_mono_left
    intro point _ later
    simpa using arc_shorten inside (by simpa using later)
  have first := weaker before
  have second := weaker behind
  unfold gap at *
  simp only [List.countP_append, List.countP_cons, decide_eq_true_eq]
  rw [if_neg notSelf, if_pos inside]
  omega

def turns (nodes : List α) (x y : α) : Nat := if x = y then 0 else gap nodes x y + 1

theorem turns_le (nodes : List α) (x y : α) : turns nodes x y ≤ nodes.length + 1 := by
  have bound := gap_le nodes x y
  unfold turns
  split
  · omega
  · omega

theorem turns_lt {nodes : List α} (ring : Ring node next) (here : node x) (there : node y)
    (listed : ∀ z, node z → z ∈ nodes) (different : x ≠ y) :
    turns nodes (next x) y < turns nodes x y := by
  unfold turns
  rw [if_neg different]
  by_cases arrives : next x = y
  · rw [if_pos arrives]
    omega
  · rw [if_neg arrives]
    have inside := arc_other (fun same => arrives same.symm) (ring.clear here there)
    have shorter := gap_lt inside (listed _ (ring.closed here))
    omega

end Ring

end Cyclic
