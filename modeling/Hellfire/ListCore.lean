import Mathlib.Data.List.Basic
import Mathlib.Logic.Function.Basic

/-!
Executable model of `sys/lib/list.c`. A pointer is an address, 0 for NULL, and the address that
`hf_malloc` returns for a new node is an argument of the call. The loops carry a bound on their
turns, which is the number of nodes that are allocated.
-/

namespace Hellfire

structure ListNode (α : Type) where
  elem : Option α
  next : Nat
deriving DecidableEq, Repr

structure LinkedList (α : Type) where
  nodes : Nat → ListNode α
  lst : Nat
  live : List Nat

namespace LinkedList

variable {α : Type}

def setNext (nodes : Nat → ListNode α) (node next : Nat) : Nat → ListNode α :=
  Function.update nodes node { nodes node with next }

def hfListInit (nodes : Nat → ListNode α) (lst : Nat) : LinkedList α :=
  ⟨Function.update nodes lst ⟨none, 0⟩, lst, [lst]⟩

def lastFrom (nodes : Nat → ListNode α) : Nat → Nat → Option Nat
  | 0, _ => none
  | fuel + 1, t2 =>
      if (nodes t2).next = 0 then some t2 else lastFrom nodes fuel (nodes t2).next

def hfListAppend (t1 : Nat) (item : Option α) (list : LinkedList α) : Option (Int × LinkedList α) :=
  if t1 = 0 then some (-1, list)
  else
    let nodes := Function.update list.nodes t1 ⟨item, 0⟩
    (lastFrom nodes list.live.length list.lst).map fun t2 =>
      (0, { list with nodes := setNext nodes t2 t1, live := t1 :: list.live })

/-- The loop of `hf_list_insert`, which counts a node after it has moved on to it. -/
def insertFrom (nodes : Nat → ListNode α) (pos : Int) : Nat → Nat → Int → Option Nat
  | 0, _, _ => none
  | fuel + 1, t2, i =>
      if (nodes t2).next = 0 then some t2
      else if i + 1 = pos then some (nodes t2).next
      else insertFrom nodes pos fuel (nodes t2).next (i + 1)

def hfListInsert (t1 : Nat) (item : Option α) (pos : Int) (list : LinkedList α) :
    Option (Int × LinkedList α) :=
  if t1 = 0 then some (-1, list)
  else
    let nodes := Function.update list.nodes t1 ⟨item, 0⟩
    (insertFrom nodes pos list.live.length list.lst 0).map fun t2 =>
      let nodes := setNext nodes t1 (nodes t2).next
      (0, { list with nodes := setNext nodes t2 t1, live := t1 :: list.live })

/-- The loop of `hf_list_remove`: the node at the position, or NULL, and the one before it. -/
def removeFrom (nodes : Nat → ListNode α) (pos : Int) : Nat → Nat → Nat → Int → Option (Nat × Nat)
  | 0, _, _, _ => none
  | fuel + 1, t1, t2, i =>
      let t1 := (nodes t1).next
      if t1 = 0 ∨ i = pos then some (t1, t2) else removeFrom nodes pos fuel t1 t1 (i + 1)

def hfListRemove (pos : Int) (list : LinkedList α) : Option (Int × LinkedList α) :=
  (removeFrom list.nodes pos list.live.length list.lst list.lst 0).map fun (t1, t2) =>
    if t1 = 0 then (-1, list)
    else (0, { list with
      nodes := setNext list.nodes t2 (list.nodes t1).next
      live := list.live.erase t1 })

/-- The loop of `hf_list_get` and `hf_list_set`: the node at the position, or NULL. -/
def nodeFrom (nodes : Nat → ListNode α) (pos : Int) : Nat → Nat → Int → Option Nat
  | 0, _, _ => none
  | fuel + 1, t1, i =>
      let t1 := (nodes t1).next
      if t1 = 0 ∨ i = pos then some t1 else nodeFrom nodes pos fuel t1 (i + 1)

def hfListGet (pos : Int) (list : LinkedList α) : Option (Option α) :=
  (nodeFrom list.nodes pos list.live.length list.lst 0).map fun t1 =>
    if t1 = 0 then none else (list.nodes t1).elem

def hfListSet (item : Option α) (pos : Int) (list : LinkedList α) : Option (Int × LinkedList α) :=
  (nodeFrom list.nodes pos list.live.length list.lst 0).map fun t1 =>
    if t1 = 0 then (-1, list)
    else (0, { list with
      nodes := Function.update list.nodes t1 { list.nodes t1 with elem := item } })

def countFrom (nodes : Nat → ListNode α) : Nat → Nat → Int → Option Int
  | 0, _, _ => none
  | fuel + 1, t1, i =>
      let t1 := (nodes t1).next
      if t1 = 0 then some i else countFrom nodes fuel t1 (i + 1)

def hfListCount (list : LinkedList α) : Option Int :=
  countFrom list.nodes list.live.length list.lst 0

end LinkedList

end Hellfire
