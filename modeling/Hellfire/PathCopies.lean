import Hellfire.AllocCalls
import Hellfire.UhfsCore

/-!
The working copy of a path on the heap: `hf_malloc(strlen(path))`, `strcpy` and the zeros that `strtok`
puts behind the tokens. All calls of `uhfs.c` that take a path begin with it.
-/

namespace Hellfire

open ByteMemory Machine

namespace Heap

def strcpyStores : Nat → List UInt8 → List (Nat × UInt8)
  | dst, [] => [(dst, 0)]
  | dst, byte :: rest => (dst, byte) :: strcpyStores (dst + 1) rest

/-- The stores of all calls of `strtok`: a zero at the delimiter behind each token. -/
def strtokStores : Bool → Nat → List UInt8 → List (Nat × UInt8)
  | _, _, [] => []
  | inToken, s, byte :: rest =>
      if isDelimiter byte then
        if inToken then (s, 0) :: strtokStores false (s + 1) rest else strtokStores false (s + 1) rest
      else strtokStores true (s + 1) rest

def storeAll (memory : Memory) (stores : List (Nat × UInt8)) : Memory :=
  stores.foldl (fun memory store => writeByte memory store.1 store.2) memory

/-- The memory once the path is copied and `strtok` was called for some of its tokens. -/
def workingCopy (memory : Memory) (ptr : Nat) (path : CString) (calls : Nat) : Memory :=
  storeAll memory (strcpyStores ptr path.bytes ++ (strtokStores false ptr path.bytes).take calls)

theorem mem_strcpyStores {bytes : List UInt8} : ∀ {dst : Nat} {store : Nat × UInt8},
    store ∈ strcpyStores dst bytes → dst ≤ store.1 ∧ store.1 ≤ dst + bytes.length := by
  induction bytes with
  | nil =>
      intro dst store member
      obtain rfl := List.mem_singleton.mp member
      exact ⟨Nat.le_refl _, Nat.le_refl _⟩
  | cons byte rest ih =>
      intro dst store member
      rw [List.length_cons]
      rcases List.mem_cons.mp member with rfl | later
      · exact ⟨Nat.le_refl _, by omega⟩
      · have bounds := ih later
        omega

theorem terminator_mem (bytes : List UInt8) : ∀ dst, (dst + bytes.length, 0) ∈ strcpyStores dst bytes := by
  induction bytes with
  | nil => exact fun dst => List.mem_singleton_self _
  | cons byte rest ih =>
      intro dst
      have later := ih (dst + 1)
      rw [List.length_cons, show dst + (rest.length + 1) = dst + 1 + rest.length by omega]
      exact List.mem_cons_of_mem _ later

theorem mem_strtokStores {bytes : List UInt8} : ∀ {inToken : Bool} {s : Nat} {store : Nat × UInt8},
    store ∈ strtokStores inToken s bytes → s ≤ store.1 ∧ store.1 < s + bytes.length := by
  induction bytes with
  | nil => exact fun member => absurd member List.not_mem_nil
  | cons byte rest ih =>
      intro inToken s store member
      rw [List.length_cons]
      rw [strtokStores] at member
      split at member
      · split at member
        · rcases List.mem_cons.mp member with rfl | later
          · exact ⟨Nat.le_refl _, by omega⟩
          · have bounds := ih later
            omega
        · have bounds := ih member
          omega
      · have bounds := ih member
        omega

theorem storeAll_other {stores : List (Nat × UInt8)} : ∀ {memory : Memory} {place : Nat},
    (∀ store ∈ stores, store.1 ≠ place) → storeAll memory stores place = memory place := by
  induction stores with
  | nil => exact fun _ => rfl
  | cons first rest ih =>
      intro memory place apart
      obtain ⟨here, later⟩ := List.forall_mem_cons.mp apart
      have kept : storeAll (writeByte memory first.1 first.2) rest place =
          writeByte memory first.1 first.2 place := ih later
      exact kept.trans (writeByte_other _ _ (Ne.symm here))

theorem workingCopy_outside (memory : Memory) {ptr place : Nat} {path : CString} (calls : Nat)
    (outside : place < ptr ∨ ptr + path.bytes.length < place) :
    workingCopy memory ptr path calls place = memory place := by
  refine storeAll_other fun store member => ?_
  rcases List.mem_append.mp member with copied | cut
  · have bounds := mem_strcpyStores copied
    omega
  · have bounds := mem_strtokStores (List.mem_of_mem_take cut)
    omega

theorem hfFree_outside (heap : Heap) {ptr place : Nat} (low : 8 ≤ ptr) (small : ptr < 4294967296)
    (outside : place < ptr - 8 ∨ ptr ≤ place) : (heap.hfFree ptr).memory place = heap.memory place := by
  have header : wrap32 (ptr + 4294967296 - 8) = ptr - 8 := by
    unfold wrap32
    omega
  simp only [hfFree, header]
  exact setSize_outside _ (by omega)

/-- The stores of the copy stay in the payload of the block, and the header behind it is as before,
also when the block is released. -/
structure CopyFits (region : Region) (heap : Heap) (ptr : Nat) (path : CString) : Prop where
  inside : ∃ len, Granted region heap ptr len ∧
    ∀ store ∈ strcpyStores ptr path.bytes, ptr ≤ store.1 ∧ store.1 < ptr + len
  header : ∀ calls place, next heap.memory (ptr - 8) ≤ place → place < next heap.memory (ptr - 8) + 8 →
    workingCopy heap.memory ptr path calls place = heap.memory place ∧
    (hfFree ptr { heap with memory := workingCopy heap.memory ptr path calls }).memory place =
      heap.memory place

end Heap

namespace HeapWorld

open Heap

variable {region : Region} {world : HeapWorld} {fuel : Nat}

/-- A path copy stays in its block exactly if the length of the path is no multiple of four (and a block
of that size can be asked for). -/
theorem path_copy_fits_iff (region : Region) (memory : Memory) (enough : region.len ≤ fuel)
    (reached : Reaches (call fuel) (sized region) (start region memory) world) (path : CString) :
    ∃ ptr heap, world.heap.hfMalloc fuel path.bytes.length = some (ptr, heap) ∧
      (ptr ≠ 0 → (CopyFits region heap ptr path ↔
        path.bytes.length % 4 ≠ 0 ∧ path.bytes.length + 12 ≤ 4294967296)) := by
  obtain ⟨front, back, honest⟩ := reached_honest enough reached
  have room : ∀ {heap ptr}, CopyFits region heap ptr path →
      Granted region heap ptr (path.bytes.length + 1) := by
    rintro heap ptr ⟨⟨len, granted, stores⟩, _⟩
    have last := (stores _ (terminator_mem path.bytes ptr)).2
    exact granted.mono (by simp only at last; omega)
  by_cases small : path.bytes.length + 12 ≤ 4294967296
  · obtain ⟨ptr, heap, _, _, returned, kept, _⟩ := honest.malloc (Or.inl small) enough
    refine ⟨ptr, heap, returned, fun nonnull => ?_⟩
    obtain ⟨granted, ends⟩ := kept.framed (mem_held nonnull)
    simp only at granted ends
    constructor
    · intro fits
      have within := (room fits).room
      refine ⟨fun multiple => ?_, small⟩
      unfold align4 wrap32 at ends
      omega
    · rintro ⟨odd, _⟩
      have spare : path.bytes.length < align4 path.bytes.length := by
        unfold align4 wrap32
        omega
      have low := granted.inside
      have fits := granted.small
      have limits := granted.within
      have addressable := region.addressable
      have headers := region.headers
      unfold Region.sentinel at limits
      refine ⟨⟨_, granted, fun store member => ?_⟩, fun calls place behind _ => ?_⟩
      · have bounds := mem_strcpyStores member
        omega
      · have same := @workingCopy_outside heap.memory ptr place path calls (by omega)
        refine ⟨same, ?_⟩
        rw [hfFree_outside _ (by omega) (by omega) (by omega)]
        exact same
  · have returns : ∃ ptr heap, world.heap.hfMalloc fuel path.bytes.length = some (ptr, heap) := by
      by_cases noRoom : NoRoom region world.heap (wrap32 (align4 path.bytes.length + 8))
      · obtain ⟨heap, full, _⟩ := honest.tracked.lazy.refuses noRoom enough
        exact ⟨0, heap, full⟩
      · obtain ⟨ptr, heap, returned, _⟩ := honest.tracked.lazy.grants noRoom enough
        exact ⟨ptr, heap, returned⟩
    obtain ⟨ptr, heap, returned⟩ := returns
    refine ⟨ptr, heap, returned, fun _ => iff_of_false (fun fits => small ?_) fun both => small both.2⟩
    have bound := (room fits).small
    omega

section SmallPaths

/-- The path `/ab` of three bytes. -/
theorem path_copy_fits_three : ∃ ptr heap,
    (start smallRegion fun _ => 0).heap.hfMalloc 64 3 = some (ptr, heap) ∧
      (ptr ≠ 0 → CopyFits smallRegion heap ptr ⟨[47, 97, 98], by decide⟩) := by
  obtain ⟨ptr, heap, returned, fits⟩ := path_copy_fits_iff smallRegion (fun _ => 0)
    (show smallRegion.len ≤ 64 by decide) .start ⟨[47, 97, 98], by decide⟩
  exact ⟨ptr, heap, returned, fun nonnull => (fits nonnull).mpr ⟨by decide, by decide⟩⟩

/-- The terminator of the path `/abc` cuts the address of the last header to that of the first one. -/
theorem terminator_cuts_header : ∃ heap,
    (start smallRegion fun _ => 0).heap.hfMalloc 64 4 = some (264, heap) ∧
      next heap.memory 256 = 268 ∧ next heap.memory 268 = 312 ∧
      next (workingCopy heap.memory 264 ⟨[47, 97, 98, 99], by decide⟩ 0) 268 = 256 ∧
      ¬CopyFits smallRegion heap 264 ⟨[47, 97, 98, 99], by decide⟩ := by
  have pointer : ((start smallRegion fun _ => 0).heap.hfMalloc 64 4).map (fun found =>
      (found.1, next found.2.memory 256, next found.2.memory 268,
        next (workingCopy found.2.memory 264 ⟨[47, 97, 98, 99], by decide⟩ 0) 268)) =
      some (264, 268, 312, 256) := by decide +kernel
  obtain ⟨⟨ptr, heap⟩, returned, same⟩ := Option.map_eq_some_iff.mp pointer
  simp only [Prod.mk.injEq] at same
  obtain ⟨rfl, first, second, cut⟩ := same
  refine ⟨heap, returned, first, second, cut, fun fits => ?_⟩
  have kept : next (workingCopy heap.memory 264 ⟨[47, 97, 98, 99], by decide⟩ 0) 268 =
      next heap.memory 268 := readWord_congr fun place low high =>
    (fits.header 0 place (by rw [first]; exact low) (by rw [first]; omega)).1
  rw [cut, second] at kept
  cases kept

end SmallPaths

end HeapWorld

end Hellfire
