import Hellfire.MpsocMeshRoutes

/-!
The links of the mesh: which endpoints are joined, and the way of a packet over the places of the
routers.
-/

namespace Hellfire

namespace MpsocSim

open Function DimensionOrder

theorem port_cases {k : Nat} (inside : k < 5) :
    k = east ∨ k = west ∨ k = north ∨ k = south ∨ k = localPort := by
  simp only [east, west, north, south, localPort]
  omega

def exit (k : Nat) : Heading :=
  if k = east then .east else if k = west then .west else if k = north then .north
  else if k = south then .south else .here

def entry (i : Nat) : Heading :=
  if i = west then .east else if i = east then .west else if i = south then .north
  else if i = north then .south else .here

namespace Mesh

/-- With at least two columns and lines, `synchronizeRouter` passes over every port at the border. -/
structure Wide (mesh : Mesh) : Prop where
  width : 2 ≤ mesh.width
  height : 2 ≤ mesh.height

def place (mesh : Mesh) (n : Nat) : Place := ⟨mesh.getColumn n, mesh.getLine n⟩

def target (mesh : Mesh) (packet : Packet) : Place :=
  mesh.place (mesh.headerToDecimal packet.header)

def peer (mesh : Mesh) : Endpoint → Endpoint
  | .router n k =>
      if k = localPort then .interface n noc
      else if k = east then
        if mesh.getColumn n + 1 < mesh.width then .router (n + 1) west else .outside n k
      else if k = west then
        if 0 < mesh.getColumn n then .router (n - 1) east else .outside n k
      else if k = north then
        if mesh.getLine n + 1 < mesh.height then .router (n + mesh.width) south else .outside n k
      else if 0 < mesh.getLine n then .router (n - mesh.width) north else .outside n k
  | .interface n p => if p = noc then .router n localPort else .core n
  | .core n => .interface n plasma
  | .outside n k => .router n k

def Inside (mesh : Mesh) : Endpoint → Prop
  | .router n k => n < mesh.size ∧ k < 5
  | .interface n p => n < mesh.size ∧ p < 2
  | .core n => n < mesh.size
  | .outside n k => n < mesh.size ∧ k < 5 ∧ mesh.peer (.router n k) = .outside n k

variable {mesh : Mesh} {n i k : Nat}

theorem place_at (line : Nat) {column : Nat} (bound : column < mesh.width) :
    mesh.place (mesh.width * line + column) = ⟨column, line⟩ := by
  rw [place, getColumn, getLine, Nat.mul_add_mod, Nat.mod_eq_of_lt bound,
    Nat.mul_add_div (Nat.zero_lt_of_lt bound), Nat.div_eq_of_lt bound, Nat.add_zero]

theorem place_split (mesh : Mesh) (n : Nat) :
    mesh.width * (mesh.place n).line + (mesh.place n).column = n :=
  Nat.div_add_mod n mesh.width

theorem place_injective {m : Nat} (same : mesh.place m = mesh.place n) : m = n := by
  rw [← mesh.place_split m, ← mesh.place_split n, same]

theorem line_lt (inside : n < mesh.size) : mesh.getLine n < mesh.height := by
  rw [size, Nat.mul_comm] at inside
  exact Nat.div_lt_of_lt_mul (by rwa [Nat.mul_comm])

theorem place_east (room : mesh.getColumn n + 1 < mesh.width) :
    mesh.place (n + 1) = ⟨mesh.getColumn n + 1, mesh.getLine n⟩ := by
  rw [← place_at (mesh.getLine n) room, ← Nat.add_assoc]
  exact congrArg (fun m => mesh.place (m + 1)) (mesh.place_split n).symm

theorem width_le (room : 0 < mesh.getLine n) : mesh.width ≤ n := by
  have split := mesh.place_split n
  simp only [place] at split
  obtain ⟨line, succ⟩ := Nat.exists_eq_succ_of_ne_zero (Nat.pos_iff_ne_zero.mp room)
  rw [succ, Nat.mul_succ] at split
  omega

namespace Wide

variable (wide : mesh.Wide)
include wide

theorem column_lt (n : Nat) : mesh.getColumn n < mesh.width :=
  Nat.mod_lt n (Nat.zero_lt_of_lt wide.width)

theorem place_west (room : 0 < mesh.getColumn n) :
    mesh.place (n - 1) = ⟨mesh.getColumn n - 1, mesh.getLine n⟩ := by
  rw [← place_at (mesh.getLine n) (Nat.lt_of_le_of_lt (Nat.sub_le _ 1) (wide.column_lt n)),
    ← Nat.add_sub_assoc room]
  exact congrArg (fun m => mesh.place (m - 1)) (mesh.place_split n).symm

theorem place_north (n : Nat) :
    mesh.place (n + mesh.width) = ⟨mesh.getColumn n, mesh.getLine n + 1⟩ := by
  rw [← place_at (mesh.getLine n + 1) (wide.column_lt n), Nat.mul_succ, Nat.add_right_comm]
  exact congrArg (fun m => mesh.place (m + mesh.width)) (mesh.place_split n).symm

theorem place_south (room : 0 < mesh.getLine n) :
    mesh.place (n - mesh.width) = ⟨mesh.getColumn n, mesh.getLine n - 1⟩ := by
  rw [← place_at (mesh.getLine n - 1) (wide.column_lt n)]
  refine congrArg mesh.place ?_
  have split := mesh.place_split n
  simp only [place] at split
  obtain ⟨line, succ⟩ := Nat.exists_eq_succ_of_ne_zero (Nat.pos_iff_ne_zero.mp room)
  rw [succ, Nat.mul_succ] at split
  rw [succ, Nat.succ_sub_one]
  omega

theorem lt_size_of_line (room : mesh.getLine n < mesh.height) : n < mesh.size := by
  have split := mesh.place_split n
  have column := wide.column_lt n
  have below : mesh.width * (mesh.getLine n + 1) ≤ mesh.width * mesh.height :=
    Nat.mul_le_mul_left _ room
  rw [Nat.mul_succ] at below
  simp only [place] at split
  rw [size]
  omega

end Wide

inductive Joint (mesh : Mesh) (n k : Nat) : Prop
  | here : k = localPort → mesh.peer (.router n k) = .interface n noc → Joint mesh n k
  | border : k ≠ localPort → mesh.peer (.router n k) = .outside n k → Joint mesh n k
  | across (m i : Nat) : k ≠ localPort → i ≠ localPort → m < mesh.size → i < 5 → m ≠ n →
      mesh.peer (.router n k) = .router m i → mesh.peer (.router m i) = .router n k →
      mesh.place m = (mesh.place n).next (exit k) → entry i = exit k → exit k ≠ .here →
      (mesh.place n).Opens (exit k) → Joint mesh n k

theorem Wide.joint (wide : mesh.Wide) (inside : n < mesh.size) (bound : k < 5) :
    Joint mesh n k := by
  rcases port_cases bound with rfl | rfl | rfl | rfl | rfl
  · by_cases room : mesh.getColumn n + 1 < mesh.width
    · have place := place_east room
      have column : mesh.getColumn (n + 1) = mesh.getColumn n + 1 := congrArg Place.column place
      have line : mesh.getLine (n + 1) = mesh.getLine n := congrArg Place.line place
      refine .across (n + 1) west (by decide) (by decide)
        (wide.lt_size_of_line (line ▸ line_lt inside)) (by decide) (Nat.succ_ne_self n)
        (if_pos room) ?_ place rfl (by decide) trivial
      have back : 0 < mesh.getColumn (n + 1) := column ▸ Nat.succ_pos _
      exact if_pos back
    · exact .border (by decide) (if_neg room)
  · by_cases room : 0 < mesh.getColumn n
    · have place := wide.place_west room
      have column : mesh.getColumn (n - 1) = mesh.getColumn n - 1 := congrArg Place.column place
      have line : mesh.getLine (n - 1) = mesh.getLine n := congrArg Place.line place
      have below := wide.column_lt n
      have positive : 0 < n := Nat.pos_of_ne_zero fun zero => by
        rw [zero, getColumn, Nat.zero_mod] at room
        exact Nat.lt_irrefl 0 room
      have back : mesh.peer (.router (n - 1) east) = .router (n - 1 + 1) west :=
        if_pos (by omega)
      rw [Nat.sub_add_cancel positive] at back
      exact .across (n - 1) east (by decide) (by decide)
        (wide.lt_size_of_line (line ▸ line_lt inside)) (by decide) (by omega)
        (if_pos room) back place rfl (by decide) room
    · exact .border (by decide) (if_neg room)
  · by_cases room : mesh.getLine n + 1 < mesh.height
    · have place := wide.place_north n
      have line : mesh.getLine (n + mesh.width) = mesh.getLine n + 1 := congrArg Place.line place
      have positive := wide.width
      have back : mesh.peer (.router (n + mesh.width) south) =
          .router (n + mesh.width - mesh.width) north := if_pos (by omega)
      rw [Nat.add_sub_cancel] at back
      exact .across (n + mesh.width) south (by decide) (by decide)
        (wide.lt_size_of_line (by omega)) (by decide) (by omega) (if_pos room) back place rfl
        (by decide) trivial
    · exact .border (by decide) (if_neg room)
  · by_cases room : 0 < mesh.getLine n
    · have place := wide.place_south room
      have line : mesh.getLine (n - mesh.width) = mesh.getLine n - 1 := congrArg Place.line place
      have above := line_lt inside
      have positive := wide.width
      have enough := width_le room
      have back : mesh.peer (.router (n - mesh.width) north) =
          .router (n - mesh.width + mesh.width) south := if_pos (by omega)
      rw [Nat.sub_add_cancel enough] at back
      exact .across (n - mesh.width) north (by decide) (by decide)
        (wide.lt_size_of_line (by omega)) (by decide) (by omega) (if_pos room) back place rfl
        (by decide) room
    · exact .border (by decide) (if_neg room)
  · exact .here rfl rfl

theorem interface_cases {p : Nat} (bound : p < 2) : p = plasma ∨ p = noc := by
  simp only [plasma, noc]
  omega

theorem Wide.peer_inside (wide : mesh.Wide) {e : Endpoint} (inside : mesh.Inside e) :
    mesh.Inside (mesh.peer e) ∧ mesh.peer (mesh.peer e) = e := by
  cases e with
  | router n k =>
      cases wide.joint inside.1 inside.2 with
      | here is_local joined =>
          rw [joined, is_local]
          exact ⟨⟨inside.1, by decide⟩, rfl⟩
      | border _ joined =>
          rw [joined]
          exact ⟨⟨inside.1, inside.2, joined⟩, rfl⟩
      | across m i _ _ known bound _ joined back =>
          rw [joined]
          exact ⟨⟨known, bound⟩, back⟩
  | interface n p =>
      rcases interface_cases inside.2 with rfl | rfl
      · exact ⟨inside.1, rfl⟩
      · exact ⟨⟨inside.1, by decide⟩, rfl⟩
  | core n => exact ⟨⟨inside, by decide⟩, rfl⟩
  | outside n k => exact ⟨⟨inside.1, inside.2.1⟩, inside.2.2⟩

theorem Wide.peer_inj (wide : mesh.Wide) {d e : Endpoint} (inside : mesh.Inside d)
    (inside' : mesh.Inside e) (same : mesh.peer d = mesh.peer e) : d = e := by
  rw [← (wide.peer_inside inside).2, same, (wide.peer_inside inside').2]

end Mesh

end MpsocSim

end Hellfire
