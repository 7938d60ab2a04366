import Mathlib.Data.List.GetD

/-!
Exchanging two cells of a list, and the list programs built from exchanges:
walking a cell to the front, and exchange sort.
-/

namespace ListSwap

variable {β : Type}

def swapCells (blank : β) (items : List β) (first second : Nat) : List β :=
  (items.set first (items.getD second blank)).set second (items.getD first blank)

@[simp] theorem swapCells_length (blank : β) (items : List β) (first second : Nat) :
    (swapCells blank items first second).length = items.length := by
  simp [swapCells]

theorem swapCells_getElem? (blank : β) {items : List β} {first second : Nat}
    (firstBound : first < items.length) (secondBound : second < items.length) (index : Nat) :
    (swapCells blank items first second)[index]? =
      if index = second then items[first]? else if index = first then items[second]? else
        items[index]? := by
  rw [swapCells, List.getD_eq_getElem _ _ firstBound, List.getD_eq_getElem _ _ secondBound]
  by_cases atSecond : index = second
  · subst atSecond
    simp [secondBound, firstBound]
  · by_cases atFirst : index = first
    · subst atFirst
      rw [List.getElem?_set_ne (Ne.symm atSecond)]
      simp [atSecond, firstBound, secondBound]
    · simp [List.getElem?_set_ne (Ne.symm atSecond), List.getElem?_set_ne (Ne.symm atFirst),
        atSecond, atFirst]

def walkToFront (blank : β) : Nat → List β → List β
  | 0, items => items
  | index + 1, items => walkToFront blank index (swapCells blank items (index + 1) index)

theorem eraseIdx_swapCells (blank : β) {items : List β} {index : Nat}
    (bound : index + 1 < items.length) :
    (swapCells blank items (index + 1) index).eraseIdx index = items.eraseIdx (index + 1) := by
  apply List.ext_getElem?
  intro place
  simp only [List.getElem?_eraseIdx,
    swapCells_getElem? blank bound (show index < items.length by omega)]
  rcases Nat.lt_trichotomy place index with before | same | after
  · simp [before, show place < index + 1 by omega, show place ≠ index by omega,
      show place ≠ index + 1 by omega]
  · simp [same]
  · simp [show ¬place < index by omega, show ¬place < index + 1 by omega,
      show place + 1 ≠ index by omega, show place ≠ index by omega]

theorem walkToFront_eq (blank : β) (index : Nat) :
    ∀ items : List β, index < items.length →
      walkToFront blank index items = items.getD index blank :: items.eraseIdx index := by
  induction index with
  | zero =>
      intro items bound
      cases items with
      | nil => simp at bound
      | cons first rest => rfl
  | succ index ih =>
      intro items bound
      have moved : (swapCells blank items (index + 1) index).getD index blank =
          items.getD (index + 1) blank := by
        simp [List.getD, swapCells_getElem? blank bound (show index < items.length by omega)]
      rw [walkToFront, ih _ (by simp only [swapCells_length]; omega), moved,
        eraseIdx_swapCells blank bound]

theorem turned_perm (skipped rest : List β) (cell : β) :
    (rest ++ skipped ++ [cell]).Perm (skipped ++ cell :: rest) := by
  have swapped : (rest ++ (skipped ++ [cell])).Perm ((skipped ++ [cell]) ++ rest) :=
    List.perm_append_comm
  simpa using swapped

theorem exists_map_some {cells : List (Option β)} {items : List β}
    (perm : cells.Perm (items.map some)) :
    ∃ values : List β, cells = values.map some ∧ values.Perm items := by
  have filled : ∀ cell ∈ cells, cell.isSome = true := by
    intro cell member
    obtain ⟨item, _, rfl⟩ := List.mem_map.mp (perm.mem_iff.mp member)
    rfl
  have values : (cells.filterMap id).Perm ((items.map some).filterMap id) := perm.filterMap id
  refine ⟨cells.filterMap id, ?_, by simpa [List.filterMap_map] using values⟩
  clear perm values
  induction cells with
  | nil => rfl
  | cons cell cells ih =>
      cases cell with
      | none => exact absurd (filled none List.mem_cons_self) (by simp)
      | some value =>
          simpa using ih fun cell member => filled cell (List.mem_cons_of_mem _ member)

theorem swapCells_split (blank : β) (before between after : List β) (first second : β) :
    swapCells blank (before ++ first :: (between ++ second :: after)) before.length
        (before.length + 1 + between.length) =
      before ++ second :: (between ++ first :: after) := by
  have place : before.length + 1 + between.length = (before ++ first :: between).length := by
    simp only [List.length_append, List.length_cons]
    omega
  have regroup : before ++ first :: (between ++ second :: after) =
      (before ++ first :: between) ++ second :: after := by simp
  have secondCell : (before ++ first :: (between ++ second :: after)).getD
      (before.length + 1 + between.length) blank = second := by
    rw [place, regroup]
    simp [List.getD]
  rw [swapCells, secondCell]
  have firstCell : (before ++ first :: (between ++ second :: after)).getD before.length blank =
      first := by
    simp [List.getD]
  have regrouped : before ++ second :: (between ++ second :: after) =
      (before ++ second :: between) ++ second :: after := by simp
  have place' : before.length + 1 + between.length = (before ++ second :: between).length := by
    simp only [List.length_append, List.length_cons]
    omega
  rw [firstCell, List.set_append_right _ _ (Nat.le_refl _), Nat.sub_self, List.set_cons_zero,
    regrouped, place', List.set_append_right _ _ (Nat.le_refl _), Nat.sub_self, List.set_cons_zero]
  simp

section ExchangeSort

variable (key : β → Nat)

def sortRow : β → List β → β × List β
  | candidate, [] => (candidate, [])
  | candidate, cell :: rest =>
      if key cell < key candidate then
        let (least, others) := sortRow cell rest
        (least, candidate :: others)
      else
        let (least, others) := sortRow candidate rest
        (least, cell :: others)

def sortRows : Nat → List β → List β
  | 0, items => items
  | _ + 1, [] => []
  | rows + 1, candidate :: rest =>
      let (least, others) := sortRow key candidate rest
      least :: sortRows rows others

theorem sortRow_perm (rest : List β) : ∀ candidate,
    ((sortRow key candidate rest).1 :: (sortRow key candidate rest).2).Perm (candidate :: rest) := by
  induction rest with
  | nil => exact fun _ => List.Perm.refl _
  | cons cell rest ih =>
      intro candidate
      simp only [sortRow]
      split
      · exact (List.Perm.swap _ _ _).trans ((ih cell).cons candidate)
      · exact (List.Perm.swap _ _ _).trans (((ih candidate).cons cell).trans (List.Perm.swap _ _ _))

theorem sortRow_least (rest : List β) : ∀ candidate, ∀ cell ∈ candidate :: rest,
    key (sortRow key candidate rest).1 ≤ key cell := by
  induction rest with
  | nil => simp [sortRow]
  | cons next rest ih =>
      intro candidate cell member
      simp only [sortRow]
      split
      · rename_i smaller
        have fromNext := ih next
        rcases List.mem_cons.mp member with same | later
        · have bound := fromNext next List.mem_cons_self
          rw [same]
          exact Nat.le_trans bound (Nat.le_of_lt smaller)
        · exact fromNext cell later
      · rename_i larger
        have fromCandidate := ih candidate
        have bound := fromCandidate candidate List.mem_cons_self
        rcases List.mem_cons.mp member with same | later
        · rw [same]
          exact bound
        · rcases List.mem_cons.mp later with same | deeper
          · rw [same]
            exact Nat.le_trans bound (Nat.le_of_not_lt larger)
          · exact fromCandidate cell (List.mem_cons_of_mem _ deeper)

theorem sortRows_perm (rows : Nat) : ∀ items : List β, (sortRows key rows items).Perm items := by
  induction rows with
  | zero => exact fun _ => List.Perm.refl _
  | succ rows ih =>
      intro items
      cases items with
      | nil => exact List.Perm.refl _
      | cons candidate rest => exact ((ih _).cons _).trans (sortRow_perm key rest candidate)

theorem sortRows_sorted (rows : Nat) : ∀ items : List β, items.length ≤ rows + 1 →
    (sortRows key rows items).Pairwise fun first second => key first ≤ key second := by
  induction rows with
  | zero =>
      intro items short
      rcases items with _ | ⟨item, _ | ⟨second, rest⟩⟩
      · exact List.Pairwise.nil
      · exact List.pairwise_singleton _ item
      · simp at short
  | succ rows ih =>
      intro items short
      cases items with
      | nil => exact List.Pairwise.nil
      | cons candidate rest =>
          have lengths := (sortRow_perm key rest candidate).length_eq
          simp only [List.length_cons] at lengths short
          simp only [sortRows, List.pairwise_cons]
          refine ⟨?_, ih _ (by omega)⟩
          intro cell member
          have inRow := List.mem_cons_of_mem (sortRow key candidate rest).1
            ((sortRows_perm key rows _).mem_iff.mp member)
          exact sortRow_least key rest candidate cell
            ((sortRow_perm key rest candidate).mem_iff.mp inRow)

end ExchangeSort

end ListSwap
