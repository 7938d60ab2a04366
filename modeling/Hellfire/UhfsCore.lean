import Hellfire.Library.ByteMemory

/-!
Executable model of the volumes, directories and files of `fs/uhfs.c`, on a block device whose
sectors have the size of a block. Every allocation of memory succeeds.
-/

namespace Hellfire

open ByteMemory

def uhfsFixdblk : Nat := 0xfffffffc
def uhfsEochblk : Nat := 0xfffffffe
def uhfsFreeblk : Nat := 0xffffffff

def uhfsAttrdir : UInt8 := 0x01
def uhfsAttrexec : UInt8 := 0x10
def uhfsAttrwrite : UInt8 := 0x20
def uhfsAttrread : UInt8 := 0x40
def uhfsAttrfree : UInt8 := 0x80

abbrev Disk : Type := Nat → Memory

structure BlkInfo where
  numSectors : UInt32
  bytesSector : UInt16

structure FsSuperblock where
  blockSize : Nat
  nBlocks : Nat
  firstCmb : Nat
  rootDirBlock : Nat
deriving DecidableEq, Repr

structure CString where
  bytes : List UInt8
  ended : 0 ∉ bytes

abbrev Name : Type := List UInt8

inductive UhfsFault
  | endless
  | uninitialised
deriving DecidableEq, Repr

/-- The delimiters `" /"`. -/
def isDelimiter (byte : UInt8) : Bool := byte = 32 || byte = 47

/-- `strtok`: the next token and what follows it. -/
def strtok (string : List UInt8) : Option (Name × List UInt8) :=
  match string.dropWhile isDelimiter with
  | [] => none
  | start => some (start.takeWhile fun byte => !isDelimiter byte,
      (start.dropWhile fun byte => !isDelimiter byte).drop 1)

def tokensFrom : Nat → List UInt8 → List Name
  | 0, _ => []
  | fuel + 1, string =>
      match strtok string with
      | none => []
      | some (token, rest) => token :: tokensFrom fuel rest

/-- The tokens that successive calls of `strtok` return. -/
def CString.tokens (path : CString) : List Name := tokensFrom path.bytes.length path.bytes

def isPowerOf2 (x : Nat) : Bool := x ≠ 0 ∧ x &&& (x - 1) = 0

def cmbData (block : Memory) (place : Nat) : Nat := readWord block (4 * place)

def setCmbData (block : Memory) (place value : Nat) : Memory := writeWord block (4 * place) value

section DirData

variable (block : Memory) (i : Nat)

def filename : Nat := 64 * i
def attributes : UInt8 := block (64 * i + 39)
def isFree : Bool := block (64 * i + 39) &&& uhfsAttrfree ≠ 0
def isDirectory : Bool := block (64 * i + 39) &&& uhfsAttrdir ≠ 0
def firstBlock : Nat := readWord block (64 * i + 52)
def fileSize : Nat := readWord block (64 * i + 56) + 4294967296 * readWord block (64 * i + 60)

def setAttributes (value : UInt8) : Memory := writeBytes block (64 * i + 39) [value]

/-- The fields that `hf_mkdir` and `hf_create` set. -/
def setEntry (name : Name) (attributes : UInt8) (first : Nat) : Memory :=
  let block := writeBytes block (filename i) (name ++ [0])
  let block := setAttributes block i attributes
  let block := writeWord block (64 * i + 48) 0
  let block := writeWord block (64 * i + 52) first
  writeWord (writeWord block (64 * i + 56) 0) (64 * i + 60) 0

end DirData

def writeBlock (disk : Disk) (place : Nat) (block : Memory) : Disk := fun other =>
  if other = place then block else disk other

def zeroBlock : Memory := fun _ => 0

namespace FsSuperblock

variable (sb : FsSuperblock)

def mapEntries : Nat := sb.blockSize / 4

def dirEntries : Nat := sb.blockSize / 64

/-- `(block - 1) & (block_size / sizeof(uint32_t) - 1)`. -/
def mapIndex (block : Nat) : Nat := (block + 4294967295) % 4294967296 &&& (sb.mapEntries - 1)

/-- `((block - 1) & ~(block_size / sizeof(uint32_t) - 1)) + 1`. -/
def mapBlock (block : Nat) : Nat :=
  ((block + 4294967295) % 4294967296 &&& (4294967295 ^^^ (sb.mapEntries - 1))) + 1

/-- `n_blocks * block_size / sizeof(uint32_t) - 1`. -/
def lastPlace : Nat := sb.nBlocks * sb.blockSize % 4294967296 / 4 - 1

def emptyDirectory : Memory := fun place =>
  if place < sb.blockSize ∧ place % 64 = 39 then uhfsAttrfree else 0

/-- The loop of `getfreeblock` over the cluster map blocks. -/
def getfreeblockFrom (disk : Disk) : Nat → Nat → Except UhfsFault (Nat × Disk)
  | 0, _ => .error .endless
  | fuel + 1, chainBlk =>
      if chainBlk = uhfsEochblk then .ok (0, disk)
      else
        let cmb := disk chainBlk
        match (List.range' 1 (sb.mapEntries - 1)).find? fun j => cmbData cmb j = uhfsFreeblk with
        | some j => .ok (chainBlk + j, writeBlock disk chainBlk (setCmbData cmb j uhfsEochblk))
        | none => getfreeblockFrom disk fuel (cmbData cmb 0)

def getfreeblock (fuel : Nat) (disk : Disk) : Except UhfsFault (Nat × Disk) :=
  sb.getfreeblockFrom disk fuel sb.firstCmb

structure Scan where
  visits : List Nat
  chainBlk : Nat
  hit : Option (Nat × Nat)
deriving DecidableEq, Repr

/-- The loop of `searchdirectory` over the blocks of one directory. -/
def scan (disk : Disk) (path : Name) : Nat → Nat → Nat → Except UhfsFault Scan
  | 0, _, _ => .error .endless
  | fuel + 1, chainBlk, dirBlk =>
      let dirBlkNext := cmbData (disk chainBlk) (sb.mapIndex dirBlk)
      let dirData := disk dirBlk
      match (List.range sb.dirEntries).find? fun i =>
          !isFree dirData i && holdsString dirData (filename i) path with
      | some i => .ok ⟨[dirBlk], chainBlk, some (dirBlk, i)⟩
      | none =>
          let chainBlk := sb.mapBlock dirBlkNext
          if sb.lastPlace < dirBlkNext ∨ dirBlkNext = uhfsEochblk then .ok ⟨[dirBlk], chainBlk, none⟩
          else (scan disk path fuel chainBlk dirBlkNext).map fun later =>
            { later with visits := dirBlk :: later.visits }

/-- The result of `searchdirectory` with what it writes to its arguments, and the blocks that it
visits in each directory. -/
structure Search where
  result : Int
  pblock : Nat
  ppath : Option Name
  lblock : Nat
  lpath : Option Name
  visits : List (List Nat)
deriving DecidableEq, Repr

/-- The loop of `searchdirectory` over the tokens of the path. -/
def searchFrom (fuel : Nat) (disk : Disk) : List Name → Nat → Nat → Nat → Option Name →
    Except UhfsFault Search
  | [], _, dirBlk, pblock, ppath => .ok ⟨-1, pblock, ppath, dirBlk, none, []⟩
  | path :: rest, chainBlk, firstDirBlk, pblock, ppath => do
      let found ← sb.scan disk path fuel chainBlk firstDirBlk
      match found.hit with
      | some (dirBlk, i) =>
          let first := firstBlock (disk dirBlk) i
          if isDirectory (disk dirBlk) i = true then do
            let later ← searchFrom fuel disk rest found.chainBlk first dirBlk (some path)
            .ok { later with visits := found.visits :: later.visits }
          else .ok ⟨1, dirBlk, some path, first, some path, [found.visits]⟩
      | none =>
          .ok ⟨if rest = [] then 0 else -1, pblock, ppath, firstDirBlk, some path, [found.visits]⟩

def searchdirectory (fuel : Nat) (disk : Disk) (path : CString) : Except UhfsFault Search :=
  sb.searchFrom fuel disk path.tokens sb.firstCmb sb.rootDirBlock 0 none

/-- The loops of `hf_mkdir` and `hf_create` that look for an empty entry and extend the directory
when there is none. -/
def addEntry (attributes : UInt8) (fresh : Memory) (lpath : Name) (fuel : Nat) :
    Nat → Disk → Nat → Nat → Except UhfsFault (Int × Disk)
  | 0, _, _, _ => .error .endless
  | rounds + 1, disk, chainBlk, dirBlk =>
      let dirBlkNext := cmbData (disk chainBlk) (sb.mapIndex dirBlk)
      match (List.range sb.dirEntries).find? fun i => isFree (disk dirBlk) i with
      | some i => do
          let (k, disk) ← sb.getfreeblock fuel disk
          if k = 0 then .ok (-1, disk)
          else
            let disk := writeBlock disk k fresh
            .ok (0, writeBlock disk dirBlk (setEntry (disk dirBlk) i lpath attributes k))
      | none =>
          if dirBlkNext ≠ uhfsEochblk then
            addEntry attributes fresh lpath fuel rounds disk (sb.mapBlock dirBlkNext) dirBlkNext
          else do
            -- the directory gets another block, and the search goes on in this one
            let (k, disk) ← sb.getfreeblock fuel disk
            if k = 0 then .ok (-1, disk)
            else
              let disk := writeBlock disk k sb.emptyDirectory
              let disk := writeBlock disk chainBlk (setCmbData (disk chainBlk) (sb.mapIndex dirBlk) k)
              addEntry attributes fresh lpath fuel rounds disk (sb.mapBlock k) k

/-- `hf_mkdir` and `hf_create` with the attributes of the new entry and the contents of its block. -/
def insert (attributes : UInt8) (fresh : Memory) (fuel : Nat) (disk : Disk) (path : CString) :
    Except UhfsFault (Int × Disk) := do
  let found ← sb.searchdirectory fuel disk path
  if found.result ≠ 0 then .ok (-1, disk)
  else
    sb.addEntry attributes fresh (found.lpath.getD []) fuel fuel disk (sb.mapBlock found.lblock)
      found.lblock

def hfMkdir (fuel : Nat) (disk : Disk) (path : CString) : Except UhfsFault (Int × Disk) :=
  sb.insert (uhfsAttrdir ||| uhfsAttrread ||| uhfsAttrwrite ||| uhfsAttrexec) sb.emptyDirectory fuel disk path

def hfCreate (fuel : Nat) (disk : Disk) (path : CString) : Except UhfsFault (Int × Disk) :=
  sb.insert (uhfsAttrread ||| uhfsAttrwrite) zeroBlock fuel disk path

def findEntry (block : Memory) (path : Name) : Option Nat :=
  (List.range sb.dirEntries).find? fun i => holdsString block (filename i) path

def freeEntry (disk : Disk) (dirBlk : Nat) (path : Name) : Disk :=
  match sb.findEntry (disk dirBlk) path with
  | none => disk
  | some i =>
      writeBlock disk dirBlk
        (setAttributes (disk dirBlk) i (attributes (disk dirBlk) i ||| uhfsAttrfree))

def freeBlocks : Nat → Disk → Nat → Nat → Except UhfsFault Disk
  | 0, _, _, _ => .error .endless
  | fuel + 1, disk, chainBlk, dirBlk =>
      let dirBlkNext := cmbData (disk chainBlk) (sb.mapIndex dirBlk)
      let disk := writeBlock disk chainBlk (setCmbData (disk chainBlk) (sb.mapIndex dirBlk) uhfsFreeblk)
      if dirBlkNext = uhfsEochblk then .ok disk
      else freeBlocks fuel disk (sb.mapBlock dirBlkNext) dirBlkNext

def isEmptyFrom (disk : Disk) : Nat → Nat → Nat → Except UhfsFault Bool
  | 0, _, _ => .error .endless
  | fuel + 1, chainBlk, dirBlk =>
      let dirBlkNext := cmbData (disk chainBlk) (sb.mapIndex dirBlk)
      if ∃ i ∈ List.range sb.dirEntries, isFree (disk dirBlk) i = false then .ok false
      else if dirBlkNext = uhfsEochblk then .ok true
      else isEmptyFrom disk fuel (sb.mapBlock dirBlkNext) dirBlkNext

def hfRmdir (fuel : Nat) (disk : Disk) (path : CString) : Except UhfsFault (Int × Disk) := do
  let found ← sb.searchdirectory fuel disk path
  if found.result ≠ 0 then .ok (-1, disk)
  else
    let chainBlk := sb.mapBlock found.lblock
    let isEmpty ← sb.isEmptyFrom disk fuel chainBlk found.lblock
    if isEmpty = false then .ok (-1, disk)
    else
      match found.ppath with
      | none => .error .uninitialised
      | some ppath => do
          let disk := sb.freeEntry disk found.pblock ppath
          let disk ← sb.freeBlocks fuel disk chainBlk found.lblock
          .ok (0, disk)

def hfUnlink (fuel : Nat) (disk : Disk) (path : CString) : Except UhfsFault (Int × Disk) := do
  let found ← sb.searchdirectory fuel disk path
  if found.result ≠ 1 then .ok (-1, disk)
  else
    let disk := sb.freeEntry disk found.pblock (found.ppath.getD [])
    let disk ← sb.freeBlocks fuel disk (sb.mapBlock found.lblock) found.lblock
    .ok (0, disk)

def toInt64 (value : Nat) : Int :=
  if value < 9223372036854775808 then value else (value : Int) - 18446744073709551616

def hfSize (fuel : Nat) (disk : Disk) (path : CString) : Except UhfsFault Int := do
  let found ← sb.searchdirectory fuel disk path
  if found.result ≠ 1 then .ok (-1)
  else
    match sb.findEntry (disk found.pblock) (found.ppath.getD []) with
    | some i => .ok (toInt64 (fileSize (disk found.pblock) i))
    | none => .ok 0

/-- The first block of the directory that `hf_opendir` opens, or none when it returns a null
pointer. -/
def hfOpendir (fuel : Nat) (disk : Disk) (path : CString) : Except UhfsFault (Option Nat) := do
  let found ← sb.searchdirectory fuel disk path
  .ok (if found.result = 0 then some found.lblock else none)

def hfGetfreeFrom (disk : Disk) : Nat → Nat → Nat → Except UhfsFault Nat
  | 0, _, _ => .error .endless
  | fuel + 1, chainBlk, freeblks =>
      let cmb := disk chainBlk
      let freeblks := freeblks +
        (List.range' 1 (sb.mapEntries - 1)).countP fun k => cmbData cmb k = uhfsFreeblk
      if cmbData cmb 0 = uhfsEochblk then .ok freeblks
      else hfGetfreeFrom disk fuel (cmbData cmb 0) freeblks

def hfGetfree (fuel : Nat) (disk : Disk) : Except UhfsFault Nat :=
  sb.hfGetfreeFrom disk fuel sb.firstCmb 0

end FsSuperblock

structure Device where
  info : BlkInfo
  disk : Disk
  ptr : Option FsSuperblock

def superblock (blkSize nBlocks : Nat) : Memory :=
  let block := writeWord zeroBlock 0 0x66600666
  let block := writeBytes block 4 [117, 104, 102, 115, 95, 117, 104, 102, 115, 95, 117, 104, 102, 115]
  let block := writeWord block 20 blkSize
  let block := writeWord block 24 nBlocks
  let block := writeBytes block 28 [110, 101, 119, 32, 118, 111, 108, 117, 109, 101]
  -- 1.1.1980, 0:00
  let block := writeWord block 44 (1 + 1 <<< 5 + 1980 <<< 9)
  let block := writeWord block 48 0
  let block := writeWord block 52 1
  let block := writeWord block 56 2
  writeWord block 60 0

/-- The cluster map block of the storage region that starts with it. -/
def regionMap (vsize blkSize k : Nat) : Memory :=
  let entries := blkSize / 4
  let start := setCmbData zeroBlock 0
    (if (k + entries) * blkSize % 4294967296 < vsize then k + entries else uhfsEochblk)
  (List.range' 1 (entries - 1)).foldl (fun block i =>
    setCmbData block i
      (if (k - 1 + i) * blkSize % 4294967296 < vsize - blkSize then uhfsFreeblk else uhfsFixdblk)) start

def writeNext (disk : Disk × Nat) (block : Memory) : Disk × Nat :=
  (writeBlock disk.1 disk.2 block, disk.2 + 1)

def writeRegions (vsize blkSize nBlocks : Nat) : Nat → Nat → Disk × Nat → Disk × Nat
  | 0, _, disk => disk
  | fuel + 1, k, disk =>
      if k < nBlocks then
        let disk := writeNext disk (regionMap vsize blkSize k)
        let disk := (List.range' 1 (blkSize / 4 - 1)).foldl (fun disk i =>
          if (k - 1 + i) * blkSize % 4294967296 < vsize - blkSize then writeNext disk zeroBlock
          else disk) disk
        writeRegions vsize blkSize nBlocks fuel (k + blkSize / 4) disk
      else disk

def hfMkfs (blkSize : UInt32) (device : Device) : Int × Device :=
  let bytesSector := device.info.bytesSector.toNat
  let blkSize := blkSize.toNat
  if device.ptr ≠ none then (-1, device)
  else if isPowerOf2 bytesSector = false then (-1, device)
  else if isPowerOf2 blkSize = false ∨ blkSize < bytesSector then (-1, device)
  else
    let vsize := device.info.numSectors.toNat * bytesSector % 4294967296
    let nBlocks := vsize / blkSize
    let start := writeNext (device.disk, 0) (superblock blkSize nBlocks)
    let disk := (writeRegions vsize blkSize nBlocks nBlocks 1 start).1
    let disk := writeBlock disk 2 (FsSuperblock.emptyDirectory ⟨blkSize, nBlocks, 1, 2⟩)
    let disk := writeBlock disk 1 (setCmbData (disk 1) 1 uhfsEochblk)
    (0, { device with disk })

def hfMount (device : Device) : Int × Device :=
  let bytesSector := device.info.bytesSector.toNat
  if device.ptr ≠ none then (-1, device)
  else if isPowerOf2 bytesSector = false then (-1, device)
  else
    let sector := device.disk 0
    let fssblock : FsSuperblock :=
      ⟨readWord sector 20, readWord sector 24, readWord sector 52, readWord sector 56⟩
    if isPowerOf2 fssblock.blockSize = false ∨ fssblock.blockSize < bytesSector then (-1, device)
    else (0, { device with ptr := some fssblock })

inductive UhfsOp
  | mkdir (path : CString)
  | create (path : CString)
  | unlink (path : CString)
  | rmdir (path : CString)

def FsSuperblock.perform (sb : FsSuperblock) (fuel : Nat) (disk : Disk) :
    UhfsOp → Except UhfsFault (Int × Disk)
  | .mkdir path => sb.hfMkdir fuel disk path
  | .create path => sb.hfCreate fuel disk path
  | .unlink path => sb.hfUnlink fuel disk path
  | .rmdir path => sb.hfRmdir fuel disk path

def Device.perform (fuel : Nat) (op : UhfsOp) (device : Device) : Except UhfsFault (Int × Device) :=
  match device.ptr with
  | none => .ok (-1, device)
  | some sb => (sb.perform fuel device.disk op).map fun (result, disk) => (result, { device with disk })

end Hellfire
