import Mathlib.Data.List.Induction
import Mathlib.Logic.Function.Basic

/-!
A cache that has one line for each block: what the lines hold after some requests, how many of
the requests miss, and that finer lines hold all that coarser ones do.
-/

namespace DirectMapped

variable {Block Line Coarse : Type} [DecidableEq Line] [DecidableEq Coarse]

def load (line : Block → Line) (contents : Line → Option Block) (block : Block) :
    Line → Option Block :=
  Function.update contents (line block) (some block)

def after (line : Block → Line) (contents : Line → Option Block) (requests : List Block) :
    Line → Option Block :=
  requests.foldl (load line) contents

def Holds (line : Block → Line) (contents : Line → Option Block) (block : Block) : Prop :=
  contents (line block) = some block

instance [DecidableEq Block] (line : Block → Line) (contents : Line → Option Block) (block : Block) :
    Decidable (Holds line contents block) :=
  inferInstanceAs (Decidable (_ = _))

def misses [DecidableEq Block] (line : Block → Line) : (Line → Option Block) → List Block → Nat
  | _, [] => 0
  | contents, block :: requests =>
      misses line (load line contents block) requests +
        if Holds line contents block then 0 else 1

def hits [DecidableEq Block] (line : Block → Line) : (Line → Option Block) → List Block → Nat
  | _, [] => 0
  | contents, block :: requests =>
      hits line (load line contents block) requests +
        if Holds line contents block then 1 else 0

variable {line : Block → Line} {coarse : Line → Coarse} {contents : Line → Option Block}
  {requests : List Block} {block other : Block}

theorem after_append (contents : Line → Option Block) (first second : List Block) :
    after line contents (first ++ second) = after line (after line contents first) second :=
  List.foldl_append ..

theorem hits_add_misses [DecidableEq Block] (contents : Line → Option Block) (requests : List Block) :
    hits line contents requests + misses line contents requests = requests.length := by
  induction requests generalizing contents with
  | nil => rfl
  | cons block requests ih =>
      have rest := ih (load line contents block)
      rw [hits, misses, List.length_cons]
      split
      · omega
      · omega

theorem load_same : load line contents block (line block) = some block :=
  Function.update_self ..

theorem load_other {place : Line} (apart : place ≠ line block) :
    load line contents block place = contents place :=
  Function.update_of_ne apart ..

theorem holds_load_iff : Holds line (load line contents other) block ↔
    other = block ∨ line block ≠ line other ∧ Holds line contents block := by
  unfold Holds
  by_cases same : line block = line other
  · rw [same, load_same, Option.some_inj]
    constructor
    · exact Or.inl
    · intro either
      exact either.resolve_right (fun apart => apart.1 rfl)
  · rw [load_other same]
    constructor
    · intro held
      exact Or.inr ⟨same, held⟩
    · intro either
      rcases either with is | ⟨_, held⟩
      · exact absurd (congrArg line is.symm) same
      · exact held

theorem holds_after_iff (empty : ∀ place, contents place = none) :
    Holds line (after line contents requests) block ↔
      ∃ before since, requests = before ++ block :: since ∧
        ∀ later ∈ since, line later ≠ line block := by
  induction requests using List.reverseRecOn with
  | nil =>
      constructor
      · intro held
        exact absurd ((empty _).symm.trans held) (Option.some_ne_none block).symm
      · rintro ⟨before, since, split, _⟩
        exact absurd (congrArg List.length split) (by simp)
  | append_singleton requests other ih =>
      have last : after line contents (requests ++ [other]) =
          load line (after line contents requests) other := by
        rw [after_append]
        rfl
      rw [last, holds_load_iff, ih]
      constructor
      · rintro (is | ⟨apart, before, since, split, clear⟩)
        · exact ⟨requests, [], by rw [is], by simp⟩
        · refine ⟨before, since ++ [other], by rw [split, List.append_assoc, List.cons_append], ?_⟩
          intro later member
          rcases List.mem_append.mp member with early | final
          · exact clear later early
          · rw [List.mem_singleton.mp final]
            exact apart.symm
      · rintro ⟨before, since, split, clear⟩
        cases since using List.reverseRecOn with
        | nil =>
            left
            have parts := List.append_inj' split rfl
            simpa using parts.2
        | append_singleton since final =>
            rw [← List.cons_append, ← List.append_assoc] at split
            have parts := List.append_inj' split rfl
            have is : other = final := by simpa using parts.2
            right
            rw [is]
            refine ⟨(clear final (by simp)).symm, before, since, parts.1, ?_⟩
            intro later member
            exact clear later (List.mem_append_left _ member)

def Refines (line : Block → Line) (coarse : Line → Coarse) (fine : Line → Option Block)
    (contents : Coarse → Option Block) : Prop :=
  ∀ block, Holds (coarse ∘ line) contents block → Holds line fine block

theorem Refines.load {fine : Line → Option Block} {contents : Coarse → Option Block}
    (refines : Refines line coarse fine contents) (block : Block) :
    Refines line coarse (load line fine block) (load (coarse ∘ line) contents block) := by
  intro other held
  rw [holds_load_iff] at held ⊢
  apply held.imp_right
  rintro ⟨apart, held⟩
  constructor
  · intro same
    exact apart (congrArg coarse same)
  · exact refines other held

theorem Refines.after {fine : Line → Option Block} {contents : Coarse → Option Block}
    (refines : Refines line coarse fine contents) (requests : List Block) :
    Refines line coarse (after line fine requests) (after (coarse ∘ line) contents requests) := by
  induction requests generalizing fine contents with
  | nil => exact refines
  | cons block requests ih => exact ih (refines.load block)

theorem Refines.misses_le [DecidableEq Block] {fine : Line → Option Block} {contents : Coarse → Option Block}
    (refines : Refines line coarse fine contents) (requests : List Block) :
    misses line fine requests ≤ misses (coarse ∘ line) contents requests := by
  induction requests generalizing fine contents with
  | nil => exact Nat.le_refl 0
  | cons block requests ih =>
      have rest := ih (refines.load block)
      have first := refines block
      rw [misses, misses]
      split
      · omega
      · rename_i missed
        rw [if_neg (fun held => missed (first held))]
        omega

end DirectMapped
