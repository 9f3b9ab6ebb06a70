import Ns3Blockchain.Model.Block

/-! # `blockchain.cc`

The rows of `m_blocks` and the orphan pool are lists.  A `const Block *` into
them is the block it points to.
-/

namespace Ns3Blockchain

open Library

structure Blockchain where
  totalBlocks : CInt
  blocks : List (List Block)
  orphans : List Block
deriving DecidableEq

namespace Blockchain

/-- `m_blocks[height]`: the index is converted to `size_t`, so a negative height
    is out of range too. -/
def rowAt (chain : Blockchain) (height : CInt) : Exec (List Block) :=
  if 0 ≤ height.val then
    match chain.blocks[height.val.toNat]? with
    | some row => .ok row
    | none => .error .rowOutOfRange
  else
    .error .rowOutOfRange

def getCurrentTopBlock (chain : Blockchain) : Exec Block :=
  match chain.blocks.getLast? with
  | some (top :: _) => .ok top
  | _ => .error .rowOutOfRange

def getTotalBlocks (chain : Blockchain) : CInt := chain.totalBlocks

def getBlockchainHeight (chain : Blockchain) : Exec CInt := do
  let top ← chain.getCurrentTopBlock
  return top.getBlockHeight

/-- `HasBlock(const Block &)`. -/
def hasBlock (chain : Blockchain) (block : Block) : Exec Bool := do
  let top ← chain.getCurrentTopBlock
  if top.getBlockHeight < block.getBlockHeight then
    return false
  else
    let row ← chain.rowAt block.getBlockHeight
    return row.any fun stored => stored.equals block

/-- `HasBlock(int, int)`. -/
def hasBlockAt (chain : Blockchain) (height minerId : CInt) : Exec Bool := do
  let top ← chain.getCurrentTopBlock
  if top.getBlockHeight < height then
    return false
  else
    let row ← chain.rowAt height
    return row.any fun stored => stored.getBlockHeight == height && stored.getMinerId == minerId

/-- The search loop of `ReturnBlock`, which stands in it twice. -/
def searchRow (chain : Blockchain) (height minerId : CInt) : Exec (Option Block) := do
  let row ← chain.rowAt height
  return row.find? fun block => block.getBlockHeight == height && block.getMinerId == minerId

/-- `ReturnBlock`: the loop is run under the range check, and again without it
    when nothing is found.  A block found is returned by copy. -/
def returnBlock (storage : Block) (chain : Blockchain) (height minerId : CInt) : Exec Block := do
  let top ← chain.getBlockchainHeight
  let found ←
    if height ≤ top ∧ CInt.lit 0 ≤ height then
      chain.searchRow height minerId
    else
      .ok none
  match found with
  | some block => return block.copy
  | none =>
    match ← chain.searchRow height minerId with
    | some block => return block.copy
    | none => return Block.default storage

/-- `isOrphan(const Block &)`. -/
def isOrphan (chain : Blockchain) (newBlock : Block) : Bool :=
  chain.orphans.any fun block => block.equals newBlock

/-- `isOrphan(int, int)`. -/
def isOrphanAt (chain : Blockchain) (height minerId : CInt) : Bool :=
  chain.orphans.any fun block => block.getBlockHeight == height && block.getMinerId == minerId

/-- `GetBlockPointer`; `none` is `NULL`. -/
def getBlockPointer (chain : Blockchain) (newBlock : Block) : Exec (Option Block) := do
  let row ← chain.rowAt newBlock.getBlockHeight
  return row.find? fun block => block.equals newBlock

def getChildrenPointers (chain : Blockchain) (block : Block) : Exec (List Block) := do
  let childrenHeight ← CInt.add block.getBlockHeight (CInt.lit 1)
  let top ← chain.getBlockchainHeight
  if top < childrenHeight then
    return []
  else
    let row ← chain.rowAt childrenHeight
    scanAll block.isParent row

/-- `GetOrpharnChildrenPointer`. -/
def getOrphanChildrenPointer (chain : Blockchain) (block : Block) : Exec (List Block) :=
  scanAll block.isParent chain.orphans

def getParent (chain : Blockchain) (block : Block) : Exec (Option Block) := do
  let parentHeight ← CInt.sub block.getBlockHeight (CInt.lit 1)
  let top ← chain.getBlockchainHeight
  if top < parentHeight ∨ parentHeight < CInt.lit 0 then
    return none
  else
    let row ← chain.rowAt parentHeight
    scanFirst block.isChild row

/-- The number of empty rows `AddBlock` inserts below a block higher than the
    current top. -/
def dummyRows (chain : Blockchain) (newBlock : Block) : Exec CInt := do
  let top ← chain.getCurrentTopBlock
  let difference ← CInt.sub newBlock.getBlockHeight top.getBlockHeight
  CInt.sub difference (CInt.lit 1)

/-- The rows after `AddBlock`; every `push_back` copies the block. -/
def addToRows (chain : Blockchain) (newBlock : Block) : Exec (List (List Block)) :=
  if chain.blocks.length = 0 then
    return chain.blocks ++ [[newBlock.copy]]
  else do
    let top ← chain.getCurrentTopBlock
    if top.getBlockHeight < newBlock.getBlockHeight then
      let dummyRows ← chain.dummyRows newBlock
      return chain.blocks ++ List.replicate dummyRows.val.toNat [] ++ [[newBlock.copy]]
    else
      let _ ← chain.rowAt newBlock.getBlockHeight
      return chain.blocks.modify newBlock.getBlockHeight.val.toNat fun row => row ++ [newBlock.copy]

def addBlock (chain : Blockchain) (newBlock : Block) : Exec Blockchain := do
  let blocks ← chain.addToRows newBlock
  let totalBlocks ← CInt.add chain.totalBlocks (CInt.lit 1)
  return { chain with blocks := blocks, totalBlocks := totalBlocks }

def genesisBlock : Block :=
  Block.new (CInt.lit 0) (CInt.lit 0) (CInt.lit 0) (CInt.lit 0) (CInt.lit 0) 0 0 ⟨0⟩

/-- `Blockchain()`. -/
def new : Exec Blockchain :=
  addBlock { totalBlocks := CInt.lit 0, blocks := [], orphans := [] } genesisBlock

def addOrphan (chain : Blockchain) (newBlock : Block) : Blockchain :=
  { chain with orphans := chain.orphans ++ [newBlock.copy] }

/-- `vector::erase` of the first element of `hole :: tail`: each later element is
    copy assigned to the place before it. -/
def shiftDown : Block → List Block → List Block
  | _, [] => []
  | hole, next :: tail => hole.assign next :: shiftDown next tail

/-- The search loop of `RemoveOrphan` and the `erase` at the place it stops. -/
def eraseFirst (newBlock : Block) : List Block → List Block
  | [] => []
  | block :: tail =>
    if newBlock.equals block then
      shiftDown block tail
    else
      block :: eraseFirst newBlock tail

def removeOrphan (chain : Blockchain) (newBlock : Block) : Blockchain :=
  { chain with orphans := eraseFirst newBlock chain.orphans }

end Blockchain

end Ns3Blockchain
