import Udynlink.Relocate

/-!
# The allocation ledger of a trace

A block is live from the request that returned it until the release of its
address. A refused request adds nothing.
-/

namespace Udynlink

open Machine

structure Block where
  addr : Addr
  size : UInt32
  tag : BlockTag
deriving DecidableEq, Repr

def Block.span (b : Block) : Span := ⟨b.addr, b.size.toNat⟩

def ledgerStep (live : List Block) : Event HostEvent → List Block
  | .host (.malloc size tag p) => if p = 0 then live else ⟨p, size, tag⟩ :: live
  | .host (.free _ p) => live.eraseP fun b => b.addr == p
  | _ => live

/-- Blocks requested and not yet released. -/
def liveBlocks (trace : List (Event HostEvent)) : List Block := trace.foldl ledgerStep []

theorem liveBlocks_append (tr evs : List (Event HostEvent)) :
    liveBlocks (tr ++ evs) = evs.foldl ledgerStep (liveBlocks tr) := List.foldl_append

@[simp] theorem liveBlocks_reads (tr : List (Event HostEvent)) (as : List Addr) :
    liveBlocks (tr ++ readEvents as) = liveBlocks tr := by
  rw [liveBlocks_append]
  induction as with
  | nil => rfl
  | cons a as ih => exact ih

end Udynlink
