import Udynlink.Machine.Memory

/-!
# Thunks

A stub loads the address of a function into `ip` and branches to a gateway, which
calls it with `r9` set to the RAM base of its module. Stubs grow from the bottom of
the pool, gateways from its top.
-/

namespace Udynlink.Deps

open Machine

def gatewaySize : UInt32 := 18

def stubSize : UInt32 := 10

/-! ## Encoding -/

/-- The immediate of a MOVW or MOVT, from its two halfwords. -/
def movImm (hw0 hw1 : UInt16) : UInt16 :=
  let i := (hw0 >>> 10) &&& 1
  let imm4 := hw0 &&& 0xF
  let imm3 := (hw1 >>> 12) &&& 0x7
  let imm8 := hw1 &&& 0xFF
  (i <<< 11) ||| (imm4 <<< 12) ||| (imm3 <<< 8) ||| imm8

/-- `op` is 0xF240 for MOVW and 0xF2C0 for MOVT. -/
def movHw0 (op imm16 : UInt16) : UInt16 :=
  op ||| (((imm16 >>> 11) &&& 1) <<< 10) ||| ((imm16 >>> 12) &&& 0xF)

def movHw1 (rd imm16 : UInt16) : UInt16 :=
  (((imm16 >>> 8) &&& 0x7) <<< 12) ||| ((rd &&& 0xF) <<< 8) ||| (imm16 &&& 0xFF)

def movwOp : UInt16 := 0xF240

def movtOp : UInt16 := 0xF2C0

/-- Store a halfword, low byte first. -/
def set16 (m : Mem) (p : Addr) (hw : UInt16) : Mem :=
  m.store p 2 fun i => if i = 0 then hw.toUInt8 else (hw >>> 8).toUInt8

def encodeMovImm (m : Mem) (dst : Addr) (rd imm16 op : UInt16) : Mem :=
  set16 (set16 m dst (movHw0 op imm16)) (dst + 2) (movHw1 rd imm16)

def decodeMovImm (m : Mem) (src : Addr) : UInt16 := movImm (m.u16 src) (m.u16 (src + 2))

/-- `decode_movw_ip_imm16` and `decode_movt_ip_imm16`. -/
def decodeMovIpImm16 (op : UInt16) (m : Mem) (stub : Addr) : Option UInt16 :=
  let hw0 := m.u16 stub
  let hw1 := m.u16 (stub + 2)
  if hw0 &&& 0xFBF0 ≠ op then none
  else if hw1 &&& 0x0F00 ≠ 0x0C00 then none
  else some (movImm hw0 hw1)

def encodeBN (m : Mem) (dst : Addr) (offsetHalfwords : Int16) : Mem :=
  set16 m dst (0xE000 ||| (offsetHalfwords.toUInt16 &&& 0x7FF))

/-! ## Writing -/

def gatewayTemplate : List UInt8 :=
  [0x2D, 0xE9, 0x00, 0x42, 0x40, 0xF2, 0x00, 0x09, 0xC0, 0xF2, 0x00, 0x09, 0xE0, 0x47,
   0xBD, 0xE8, 0x00, 0x82]

def writeGateway (m : Mem) (dst : Addr) (ramBase : UInt32) : Mem :=
  let m := m.store dst 18 fun i => gatewayTemplate.getD i 0
  let m := encodeMovImm m (dst + 4) 9 ramBase.toUInt16 movwOp
  encodeMovImm m (dst + 8) 9 (ramBase >>> 16).toUInt16 movtOp

/-- The offset of the branch, narrowed before it is checked. -/
def branchOffset (dst gateway : Addr) : Int16 :=
  ((gateway - (dst + 12)).toInt32 / 2).toInt16

/-- The address of the stub, 0 when the gateway is out of reach; the first two
instructions are written all the same. -/
def writeStub (m : Mem) (dst : Addr) (funcAddr : UInt32) (gateway : Addr) : Addr × Mem :=
  let m := encodeMovImm m dst 12 funcAddr.toUInt16 movwOp
  let m := encodeMovImm m (dst + 4) 12 (funcAddr >>> 16).toUInt16 movtOp
  let hwOffset := branchOffset dst gateway
  if hwOffset < -1024 ∨ hwOffset > 1023 then (0, m)
  else (dst ||| 1, encodeBN m (dst + 8) hwOffset)

theorem or_one_ne_zero (a : UInt32) : a ||| 1 ≠ 0 := by
  intro h0
  have h1 := congrArg (fun x : UInt32 => x.toBitVec.getLsbD 0) h0
  simp at h1

/-! ## The pool -/

structure ThunkPool where
  base : Addr
  size : UInt32
  used : UInt32
  gatewayTop : UInt32
deriving DecidableEq, Repr

def ThunkPool.init (buf : Addr) (sz : UInt32) : ThunkPool :=
  let misalign := buf &&& 3
  let skip := 4 - misalign
  let base := if misalign = 0 then buf else if skip ≥ sz then buf + sz else buf + skip
  let size := if misalign = 0 then sz else if skip ≥ sz then 0 else sz - skip
  ⟨base, size &&& ~~~3, 0, size &&& ~~~3⟩

/-- The function a stub calls. -/
def stubTarget (m : Mem) (stub : Addr) : Option UInt32 := do
  let lo16 ← decodeMovIpImm16 movwOp m stub
  let hi16 ← decodeMovIpImm16 movtOp m (stub + 4)
  some ((hi16.toUInt32 <<< 16) ||| lo16.toUInt32)

/-- The newest stub first. -/
def stubScan (m : Mem) (base : Addr) (funcAddr : UInt32) : Nat → UInt32 → Addr
  | 0, _ => 0
  | n + 1, pos =>
    if pos < stubSize then 0
    else if stubTarget m (base + (pos - stubSize)) = some funcAddr then
      (base + (pos - stubSize)) ||| 1
    else stubScan m base funcAddr n (pos - stubSize)

/-- `udynlink_external_find_stub`. -/
def findStub (m : Mem) (pool : ThunkPool) (funcAddr : UInt32) : Addr :=
  stubScan m pool.base funcAddr (pool.used.toNat / 10) pool.used

def gatewayRamBase (m : Mem) (g : Addr) : UInt32 :=
  (decodeMovImm m (g + 4)).toUInt32 ||| ((decodeMovImm m (g + 8)).toUInt32 <<< 16)

def gatewayScan (m : Mem) (pool : ThunkPool) (ramBase : UInt32) : Nat → UInt32 → Addr
  | 0, _ => 0
  | n + 1, off =>
    if ¬ off + gatewaySize ≤ pool.size then 0
    else if gatewayRamBase m (pool.base + off) = ramBase then pool.base + off
    else gatewayScan m pool ramBase n (off + gatewaySize)

def thunkFindGateway (m : Mem) (pool : ThunkPool) (ramBase : UInt32) : Addr :=
  gatewayScan m pool ramBase (pool.size.toNat / 18 + 1) pool.gatewayTop

/-- The pool and the memory it lies in. -/
structure Thunks where
  mem : Mem
  pool : ThunkPool

namespace Thunks

def allocGateway (t : Thunks) (ramBase : UInt32) : Addr × Thunks :=
  if t.pool.gatewayTop < t.pool.used + gatewaySize then (0, t)
  else
    let pool := { t.pool with gatewayTop := t.pool.gatewayTop - gatewaySize }
    let g := pool.base + pool.gatewayTop
    (g, ⟨writeGateway t.mem g ramBase, pool⟩)

def allocStub (t : Thunks) (funcAddr : UInt32) (gateway : Addr) : Addr × Thunks :=
  if t.pool.used + stubSize > t.pool.gatewayTop then (0, t)
  else
    let s := t.pool.base + t.pool.used
    let pool := { t.pool with used := t.pool.used + stubSize }
    if s = 0 then (0, ⟨t.mem, pool⟩)
    else
      let r := writeStub t.mem s funcAddr gateway
      if r.1 = 0 then (0, ⟨r.2, t.pool⟩) else (s ||| 1, ⟨r.2, pool⟩)

end Thunks

end Udynlink.Deps
