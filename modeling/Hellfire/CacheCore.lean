import Hellfire.Library.Loops
import Hellfire.SoftIntCore

/-!
Executable model of `usr/sim/hf_riscv_sim/cache.c`: one level of a cache with one way, which
is told the addresses of a program and counts what becomes of them.
-/

namespace Hellfire

open Loops

namespace CacheSim

/-- `wt` is write through without write allocate, `wa` with it, and `wb` is write back. -/
inductive Policy
  | wt
  | wa
  | wb
  deriving DecidableEq

structure CacheSetWay where
  valid : Bool
  dirty : Bool
  tag : Word

structure MissPenalty where
  setupTime : Word
  burstTime : Word

structure Access where
  hits : Dword
  misses : Dword
  reads : Dword
  writes : Dword

structure ConfigMasks where
  tagMask : Word
  tagShift : Word
  setMask : Word
  setShift : Word
  blockMask : Word

structure Cache where
  policy : Policy
  sets : Word
  blockSize : Word
  missPenalty : MissPenalty
  config : ConfigMasks
  access : Access
  cacheSets : Nat → CacheSetWay

structure HalvingState where
  bit : Word
  value : Word

/-- A loop `while (bit >>= 1)` of `cache_init`; all of them end within 32 turns. -/
def halvings (change : Word → Word) (bit value : Word) : Option Word :=
  (whileLoop (fun state : HalvingState => state.bit >>> 1 ≠ 0)
    (fun state => ⟨state.bit >>> 1, change state.value⟩) 32 ⟨bit, value⟩).map HalvingState.value

def grow (mask : Word) : Word := (mask <<< 1) ||| 1

def cacheInit (policy : Policy) (sets blockSize missSetup missBurst : Word) : Option Cache := do
  let blockMask ← halvings grow blockSize 0
  let setMask ← halvings grow sets 0
  let setShift ← halvings (· + 1) blockSize 0
  let tagMask ← halvings (· >>> 1) blockSize 0xffffffff
  let tagMask ← halvings (· >>> 1) sets tagMask
  let tagShift ← halvings (· + 1) sets 0
  return {
    policy := policy
    sets := sets
    blockSize := blockSize
    missPenalty := ⟨missSetup, missBurst⟩
    config := ⟨tagMask, tagShift + setShift, setMask, setShift, blockMask⟩
    access := ⟨0, 0, 0, 0⟩
    cacheSets := fun _ => ⟨false, false, 0⟩ }

namespace Cache

variable (cache : Cache) (address : Word)

def set : Word := address >>> cache.config.setShift.toNat >>> 2 &&& cache.config.setMask

def tag : Word := address >>> cache.config.tagShift.toNat >>> 2 &&& cache.config.tagMask

def way : CacheSetWay := cache.cacheSets (cache.set address).toNat

def found : Prop := (cache.way address).valid = true ∧ (cache.way address).tag = cache.tag address

instance : Decidable (cache.found address) := inferInstanceAs (Decidable (_ ∧ _))

def setWay (way : CacheSetWay) : Cache :=
  { cache with
    cacheSets := fun place => if place = (cache.set address).toNat then way else cache.cacheSets place }

def hit : Cache := { cache with access := { cache.access with hits := cache.access.hits + 1 } }

def missed : Cache := { cache with access := { cache.access with misses := cache.access.misses + 1 } }

def counted (write : Bool) : Cache :=
  if write then { cache with access := { cache.access with writes := cache.access.writes + 1 } }
  else { cache with access := { cache.access with reads := cache.access.reads + 1 } }

def blockTime : Word := cache.missPenalty.setupTime + cache.missPenalty.burstTime

def wordTime : Word :=
  cache.missPenalty.setupTime + cache.missPenalty.burstTime / cache.blockSize

def cacheRead : Word × Cache :=
  match cache.policy with
  | .wb =>
      if cache.found address then (0, cache.hit.counted false)
      else
        let dirtyPenalty := if (cache.way address).dirty then cache.blockTime else 0
        (dirtyPenalty + cache.missPenalty.setupTime + cache.missPenalty.burstTime,
          (cache.missed.setWay address ⟨true, false, cache.tag address⟩).counted false)
  | _ =>
      if cache.found address then (0, cache.hit.counted false)
      else
        (cache.blockTime,
          (cache.missed.setWay address
            { cache.way address with valid := true, tag := cache.tag address }).counted false)

def cacheWrite : Word × Cache :=
  match cache.policy with
  | .wt => (cache.wordTime, cache.counted true)
  | .wa =>
      if cache.found address then (cache.wordTime, cache.hit.counted true)
      else
        (cache.wordTime + cache.missPenalty.setupTime + cache.missPenalty.burstTime,
          (cache.missed.setWay address
            { cache.way address with valid := true, tag := cache.tag address }).counted true)
  | .wb =>
      if cache.found address then
        (0, (cache.hit.counted true).setWay address { cache.way address with dirty := true })
      else
        (cache.wordTime + cache.missPenalty.setupTime + cache.missPenalty.burstTime,
          (cache.missed.setWay address ⟨true, false, cache.tag address⟩).counted true)

end Cache

end CacheSim

end Hellfire
