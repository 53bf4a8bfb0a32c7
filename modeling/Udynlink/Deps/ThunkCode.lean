import Udynlink.Deps.Thunk

/-!
# What a thunk does

The few Thumb instructions of stubs and gateways, and what running them comes to: the
stub loads `ip` and branches, the gateway saves `r9`, loads the RAM base, calls and
restores.
-/

namespace Udynlink.Deps

open Machine

/-! ## The processor -/

/-- The registers a thunk touches, and the words on the stack. -/
structure Cpu where
  pc : UInt32
  r9 : UInt32
  ip : UInt32
  lr : UInt32
  stack : List UInt32

inductive Effect where
  | next (c : Cpu)
  | call (target : UInt32) (c : Cpu)

/-- Register `rd` of the two that thunks load. -/
def Cpu.setReg (c : Cpu) (rd : UInt16) (f : UInt32 → UInt32) : Option Cpu :=
  if rd = 9 then some { c with r9 := f c.r9, pc := c.pc + 4 }
  else if rd = 12 then some { c with ip := f c.ip, pc := c.pc + 4 }
  else none

/-- Where a B.N at `pc` goes: a signed 11-bit number of halfwords from `pc + 4`. -/
def branchTarget (hw : UInt16) (pc : UInt32) : UInt32 :=
  let imm := (hw &&& 0x7FF).toUInt32
  if imm < 0x400 then pc + 4 + imm * 2 else pc + 4 + imm * 2 - 0x1000

/-- One instruction. -/
def Cpu.step (m : Mem) (c : Cpu) : Option Effect :=
  let hw0 := m.u16 c.pc
  let hw1 := m.u16 (c.pc + 2)
  if hw0 &&& 0xFBF0 = movwOp then
    (c.setReg ((hw1 >>> 8) &&& 0xF) fun _ => (movImm hw0 hw1).toUInt32).map .next
  else if hw0 &&& 0xFBF0 = movtOp then
    (c.setReg ((hw1 >>> 8) &&& 0xF) fun x =>
      ((movImm hw0 hw1).toUInt32 <<< 16) ||| (x &&& 0xFFFF)).map .next
  else if hw0 &&& 0xF800 = 0xE000 then some (.next { c with pc := branchTarget hw0 c.pc })
  else if hw0 = 0xE92D ∧ hw1 = 0x4200 then
    some (.next { c with pc := c.pc + 4, stack := c.r9 :: c.lr :: c.stack })
  else if hw0 = 0xE8BD ∧ hw1 = 0x8200 then
    match c.stack with
    | r9 :: ret :: rest => some (.next { c with pc := ret &&& ~~~1, r9 := r9, stack := rest })
    | _ => none
  else if hw0 = 0x47E0 then some (.call c.ip { c with pc := c.ip &&& ~~~1, lr := (c.pc + 2) ||| 1 })
  else none

/-- Run up to the first call. -/
def Cpu.toCall (m : Mem) : Nat → Cpu → Option (UInt32 × Cpu)
  | 0, _ => none
  | n + 1, c =>
    match c.step m with
    | some (.next c) => toCall m n c
    | some (.call target c) => some (target, c)
    | none => none

/-- Entered at `entry`, the code calls `f` with `r9 = r`; when `f` returns with the
stack as it was, the caller gets back its `r9` and goes on. -/
def CallsWith (m : Mem) (entry : Addr) (f r : UInt32) : Prop :=
  ∀ c : Cpu, c.pc = entry &&& ~~~1 →
    ∃ n c', c.toCall m n = some (f, c') ∧ c'.r9 = r ∧
      ∀ d : Cpu, d.pc = c'.lr &&& ~~~1 → d.stack = c'.stack →
        ∃ e, d.step m = some (.next e) ∧ e.r9 = c.r9 ∧ e.pc = c.lr &&& ~~~1 ∧ e.stack = c.stack

/-! ## Encoding and decoding -/

section

variable {op rd imm x : UInt16}

theorem movImm_encode (hop : op = movwOp ∨ op = movtOp) (hrd : rd = 9 ∨ rd = 12) :
    movImm (movHw0 op imm) (movHw1 rd imm) = imm := by
  apply UInt16.eq_of_toBitVec_eq
  apply BitVec.eq_of_getLsbD_eq
  intro i hi
  rcases hop with rfl | rfl <;> rcases hrd with rfl | rfl <;>
    simp only [movImm, movHw0, movHw1, movwOp, movtOp, UInt16.toBitVec_or, UInt16.toBitVec_and,
      UInt16.toBitVec_shiftLeft, UInt16.toBitVec_shiftRight, UInt16.toBitVec_ofNat,
      BitVec.shiftLeft_eq', BitVec.ushiftRight_eq', BitVec.getLsbD_or, BitVec.getLsbD_and,
      BitVec.getLsbD_shiftLeft, BitVec.getLsbD_ushiftRight, BitVec.getLsbD_ofNat] <;>
    interval_cases i <;> simp [Nat.testBit]

theorem movHw0_op (hop : op = movwOp ∨ op = movtOp) : movHw0 op imm &&& 0xFBF0 = op := by
  apply UInt16.eq_of_toBitVec_eq
  apply BitVec.eq_of_getLsbD_eq
  intro i hi
  rcases hop with rfl | rfl <;>
    simp only [movHw0, movwOp, movtOp, UInt16.toBitVec_or, UInt16.toBitVec_and,
      UInt16.toBitVec_shiftLeft, UInt16.toBitVec_shiftRight, UInt16.toBitVec_ofNat,
      BitVec.shiftLeft_eq', BitVec.ushiftRight_eq', BitVec.getLsbD_or, BitVec.getLsbD_and,
      BitVec.getLsbD_shiftLeft, BitVec.getLsbD_ushiftRight, BitVec.getLsbD_ofNat] <;>
    interval_cases i <;> simp [Nat.testBit]

theorem movHw1_rd (hrd : rd = 9 ∨ rd = 12) : (movHw1 rd imm >>> 8) &&& 0xF = rd := by
  apply UInt16.eq_of_toBitVec_eq
  apply BitVec.eq_of_getLsbD_eq
  intro i hi
  rcases hrd with rfl | rfl <;>
    simp only [movHw1, UInt16.toBitVec_or, UInt16.toBitVec_and,
      UInt16.toBitVec_shiftLeft, UInt16.toBitVec_shiftRight, UInt16.toBitVec_ofNat,
      BitVec.shiftLeft_eq', BitVec.ushiftRight_eq', BitVec.getLsbD_or, BitVec.getLsbD_and,
      BitVec.getLsbD_shiftLeft, BitVec.getLsbD_ushiftRight, BitVec.getLsbD_ofNat] <;>
    interval_cases i <;> simp [Nat.testBit]

theorem movHw1_ip : movHw1 12 imm &&& 0x0F00 = 0x0C00 := by
  apply UInt16.eq_of_toBitVec_eq
  apply BitVec.eq_of_getLsbD_eq
  intro i hi
  simp only [movHw1, UInt16.toBitVec_or, UInt16.toBitVec_and, UInt16.toBitVec_shiftLeft,
    UInt16.toBitVec_shiftRight, UInt16.toBitVec_ofNat, BitVec.shiftLeft_eq',
    BitVec.ushiftRight_eq', BitVec.getLsbD_or, BitVec.getLsbD_and, BitVec.getLsbD_shiftLeft,
    BitVec.getLsbD_ushiftRight, BitVec.getLsbD_ofNat]
  interval_cases i <;> simp [Nat.testBit]

/-- A halfword with a bit that a constant does not have. -/
theorem ne_of_bit {a b : UInt16} (i : Nat) (ha : a.toBitVec.getLsbD i = true)
    (hb : b.toBitVec.getLsbD i = false) : a ≠ b := by
  intro h
  rw [h, hb] at ha
  cases ha

theorem branch_not_mov : (0xE000 ||| (x &&& 0x7FF)) &&& 0xFBF0 ≠ movwOp ∧
    (0xE000 ||| (x &&& 0x7FF)) &&& 0xFBF0 ≠ movtOp := by
  constructor <;> apply Ne.symm <;> apply ne_of_bit 12 <;> simp [movwOp, movtOp]

theorem branch_op : (0xE000 ||| (x &&& 0x7FF)) &&& 0xF800 = 0xE000 := by
  apply UInt16.eq_of_toBitVec_eq
  apply BitVec.eq_of_getLsbD_eq
  intro i hi
  simp only [UInt16.toBitVec_or, UInt16.toBitVec_and, UInt16.toBitVec_ofNat, BitVec.getLsbD_or,
    BitVec.getLsbD_and, BitVec.getLsbD_ofNat]
  interval_cases i <;> simp [Nat.testBit]

theorem branch_imm : (0xE000 ||| (x &&& 0x7FF)) &&& 0x7FF = x &&& 0x7FF := by
  apply UInt16.eq_of_toBitVec_eq
  apply BitVec.eq_of_getLsbD_eq
  intro i hi
  simp only [UInt16.toBitVec_or, UInt16.toBitVec_and, UInt16.toBitVec_ofNat, BitVec.getLsbD_or,
    BitVec.getLsbD_and, BitVec.getLsbD_ofNat]
  interval_cases i <;> simp [Nat.testBit]

/-- A word from its halves. -/
theorem halves (f : UInt32) : ((f >>> 16).toUInt16.toUInt32 <<< 16) ||| f.toUInt16.toUInt32 = f := by
  apply UInt32.eq_of_toBitVec_eq
  apply BitVec.eq_of_getLsbD_eq
  intro i hi
  simp only [UInt32.toBitVec_or, UInt32.toBitVec_shiftLeft, UInt16.toBitVec_toUInt32,
    UInt32.toBitVec_toUInt16, UInt32.toBitVec_shiftRight, UInt32.toBitVec_ofNat,
    BitVec.shiftLeft_eq', BitVec.ushiftRight_eq', BitVec.getLsbD_or, BitVec.getLsbD_shiftLeft,
    BitVec.getLsbD_setWidth, BitVec.getLsbD_ushiftRight]
  interval_cases i <;> simp

theorem low_half (f : UInt32) : f.toUInt16.toUInt32 &&& 0xFFFF = f.toUInt16.toUInt32 := by
  apply UInt32.eq_of_toBitVec_eq
  apply BitVec.eq_of_getLsbD_eq
  intro i hi
  simp only [UInt32.toBitVec_and, UInt16.toBitVec_toUInt32, UInt32.toBitVec_toUInt16,
    UInt32.toBitVec_ofNat, BitVec.getLsbD_and, BitVec.getLsbD_setWidth, BitVec.getLsbD_ofNat]
  interval_cases i <;> simp [Nat.testBit]

end

/-! ## Steps -/

section

variable {m : Mem} {c : Cpu} {rd imm : UInt16}

theorem step_movw (h0 : m.u16 c.pc = movHw0 movwOp imm) (h1 : m.u16 (c.pc + 2) = movHw1 rd imm)
    (hrd : rd = 9 ∨ rd = 12) :
    c.step m = (c.setReg rd fun _ => imm.toUInt32).map .next := by
  unfold Cpu.step
  dsimp only
  rw [h0, h1, if_pos (movHw0_op (Or.inl rfl)), movHw1_rd hrd, movImm_encode (Or.inl rfl) hrd]

theorem step_movt (h0 : m.u16 c.pc = movHw0 movtOp imm) (h1 : m.u16 (c.pc + 2) = movHw1 rd imm)
    (hrd : rd = 9 ∨ rd = 12) :
    c.step m = (c.setReg rd fun x => (imm.toUInt32 <<< 16) ||| (x &&& 0xFFFF)).map .next := by
  unfold Cpu.step
  dsimp only
  rw [h0, h1, movHw0_op (Or.inr rfl), if_neg (show ¬ movtOp = movwOp by decide), if_pos rfl,
    movHw1_rd hrd, movImm_encode (Or.inr rfl) hrd]

theorem step_branch {x : UInt16} (h0 : m.u16 c.pc = 0xE000 ||| (x &&& 0x7FF)) :
    c.step m = some (.next { c with pc := branchTarget (0xE000 ||| (x &&& 0x7FF)) c.pc }) := by
  unfold Cpu.step
  dsimp only
  rw [h0, if_neg branch_not_mov.1, if_neg branch_not_mov.2, if_pos branch_op]

theorem step_push (h0 : m.u16 c.pc = 0xE92D) (h1 : m.u16 (c.pc + 2) = 0x4200) :
    c.step m = some (.next { c with pc := c.pc + 4, stack := c.r9 :: c.lr :: c.stack }) := by
  unfold Cpu.step
  dsimp only
  rw [h0, h1, if_neg (show ¬ (0xE92D : UInt16) &&& 0xFBF0 = movwOp by decide),
    if_neg (show ¬ (0xE92D : UInt16) &&& 0xFBF0 = movtOp by decide),
    if_neg (show ¬ (0xE92D : UInt16) &&& 0xF800 = 0xE000 by decide), if_pos ⟨rfl, rfl⟩]

theorem step_pop {r9 ret : UInt32} {rest : List UInt32} (h0 : m.u16 c.pc = 0xE8BD)
    (h1 : m.u16 (c.pc + 2) = 0x8200) (hs : c.stack = r9 :: ret :: rest) :
    c.step m = some (.next { c with pc := ret &&& ~~~1, r9 := r9, stack := rest }) := by
  unfold Cpu.step
  dsimp only
  rw [h0, h1, if_neg (show ¬ (0xE8BD : UInt16) &&& 0xFBF0 = movwOp by decide),
    if_neg (show ¬ (0xE8BD : UInt16) &&& 0xFBF0 = movtOp by decide),
    if_neg (show ¬ (0xE8BD : UInt16) &&& 0xF800 = 0xE000 by decide),
    if_neg (fun h => absurd h.1 (show ¬ (0xE8BD : UInt16) = 0xE92D by decide)),
    if_pos ⟨rfl, rfl⟩, hs]

theorem step_blx (h0 : m.u16 c.pc = 0x47E0) :
    c.step m = some (.call c.ip { c with pc := c.ip &&& ~~~1, lr := (c.pc + 2) ||| 1 }) := by
  unfold Cpu.step
  dsimp only
  rw [h0, if_neg (show ¬ (0x47E0 : UInt16) &&& 0xFBF0 = movwOp by decide),
    if_neg (show ¬ (0x47E0 : UInt16) &&& 0xFBF0 = movtOp by decide),
    if_neg (show ¬ (0x47E0 : UInt16) &&& 0xF800 = 0xE000 by decide),
    if_neg (fun h => absurd h.1 (show ¬ (0x47E0 : UInt16) = 0xE92D by decide)),
    if_neg (fun h => absurd h.1 (show ¬ (0x47E0 : UInt16) = 0xE8BD by decide)), if_pos rfl]

end

/-! ## Stubs and gateways -/

/-- A stub for `f` at `s` that branches to `g`. -/
structure StubAt (m : Mem) (s : Addr) (f : UInt32) (g : Addr) : Prop where
  movw0 : m.u16 s = movHw0 movwOp f.toUInt16
  movw1 : m.u16 (s + 2) = movHw1 12 f.toUInt16
  movt0 : m.u16 (s + 4) = movHw0 movtOp (f >>> 16).toUInt16
  movt1 : m.u16 (s + 6) = movHw1 12 (f >>> 16).toUInt16
  branch : ∃ x, m.u16 (s + 8) = 0xE000 ||| (x &&& 0x7FF) ∧
    branchTarget (0xE000 ||| (x &&& 0x7FF)) (s + 8) = g

/-- A gateway for the RAM base `r` at `g`. -/
structure GatewayAt (m : Mem) (g : Addr) (r : UInt32) : Prop where
  push0 : m.u16 g = 0xE92D
  push1 : m.u16 (g + 2) = 0x4200
  movw0 : m.u16 (g + 4) = movHw0 movwOp r.toUInt16
  movw1 : m.u16 (g + 6) = movHw1 9 r.toUInt16
  movt0 : m.u16 (g + 8) = movHw0 movtOp (r >>> 16).toUInt16
  movt1 : m.u16 (g + 10) = movHw1 9 (r >>> 16).toUInt16
  blx : m.u16 (g + 12) = 0x47E0
  pop0 : m.u16 (g + 14) = 0xE8BD
  pop1 : m.u16 (g + 16) = 0x8200

/-- Thumb code is at an even address. -/
def Even (a : Addr) : Prop := a.toNat % 2 = 0

theorem even_or_one {a : Addr} (h : Even a) : (a ||| 1) &&& ~~~1 = a := by
  have h0 : a.toBitVec.getLsbD 0 = false := by
    show a.toNat.testBit 0 = false
    rw [Nat.testBit_zero, h]
    rfl
  apply UInt32.eq_of_toBitVec_eq
  apply BitVec.eq_of_getLsbD_eq
  intro i hi
  simp only [UInt32.toBitVec_and, UInt32.toBitVec_or, UInt32.toBitVec_not, UInt32.toBitVec_ofNat,
    BitVec.getLsbD_and, BitVec.getLsbD_or, BitVec.getLsbD_not, BitVec.getLsbD_ofNat]
  cases i with
  | zero => simpa using h0
  | succ i => simp [hi, Nat.testBit_succ]

theorem Even.add {a b : Addr} (ha : Even a) (hb : Even b) : Even (a + b) := by
  unfold Even at *
  rw [UInt32.toNat_add]
  omega

theorem add_add (a : Addr) {x y z : Addr} (h : x + y = z) : a + x + y = a + z := by
  rw [UInt32.add_assoc, h]

theorem toCall_next {m : Mem} {c d : Cpu} {n : Nat} (h : c.step m = some (.next d)) :
    c.toCall m (n + 1) = d.toCall m n := by
  rw [Cpu.toCall, h]

theorem toCall_call {m : Mem} {c d : Cpu} {f : UInt32} {n : Nat}
    (h : c.step m = some (.call f d)) : c.toCall m (n + 1) = some (f, d) := by
  rw [Cpu.toCall, h]

/-- The three instructions of a stub. -/
theorem StubAt.steps {m : Mem} {s g : Addr} {f : UInt32} (hs : StubAt m s f g) {c : Cpu}
    (hpc : c.pc = s) : ∃ c1 c2, c.step m = some (.next c1) ∧ c1.step m = some (.next c2) ∧
      c2.step m = some (.next { c with pc := g, ip := f }) := by
  refine ⟨{ c with ip := f.toUInt16.toUInt32, pc := s + 4 }, { c with ip := f, pc := s + 8 },
    ?_, ?_, ?_⟩
  · rw [step_movw (by rw [hpc, hs.movw0]) (by rw [hpc, hs.movw1]) (Or.inr rfl), ← hpc]
    rfl
  · have h6 : s + 4 + 2 = s + 6 := add_add s rfl
    rw [step_movt (c := { c with ip := f.toUInt16.toUInt32, pc := s + 4 }) hs.movt0
      (by rw [← hs.movt1, ← h6]) (Or.inr rfl)]
    show some (Effect.next { c with
      ip := ((f >>> 16).toUInt16.toUInt32 <<< 16) ||| (f.toUInt16.toUInt32 &&& 0xFFFF),
      pc := s + 4 + 4 }) = _
    rw [low_half, halves, add_add s (show (4 : UInt32) + 4 = 8 from rfl)]
  · obtain ⟨x, hx, ht⟩ := hs.branch
    rw [step_branch (c := { c with ip := f, pc := s + 8 }) hx, ht]

/-- The stub ends at the gateway, with the function in `ip`. -/
theorem StubAt.toCall {m : Mem} {s g : Addr} {f : UInt32} (hs : StubAt m s f g) {c : Cpu}
    (hpc : c.pc = s) (n : Nat) :
    c.toCall m (n + 3) = { c with pc := g, ip := f : Cpu }.toCall m n := by
  obtain ⟨c1, c2, h1, h2, h3⟩ := hs.steps hpc
  rw [toCall_next h1, toCall_next h2, toCall_next h3]

section

variable {m : Mem} {g : Addr} {r : UInt32} {x ip lr : UInt32} {st : List UInt32}

theorem GatewayAt.push (hg : GatewayAt m g r) {c : Cpu} (hpc : c.pc = g) :
    c.step m = some (.next ⟨g + 4, c.r9, c.ip, c.lr, c.r9 :: c.lr :: c.stack⟩) := by
  rw [step_push (by rw [hpc, hg.push0]) (by rw [hpc, hg.push1]), ← hpc]

theorem GatewayAt.movw (hg : GatewayAt m g r) :
    (⟨g + 4, x, ip, lr, st⟩ : Cpu).step m =
      some (.next ⟨g + 8, r.toUInt16.toUInt32, ip, lr, st⟩) := by
  have h6 : g + 4 + 2 = g + 6 := add_add g rfl
  rw [step_movw (c := ⟨g + 4, x, ip, lr, st⟩) hg.movw0 (by rw [← hg.movw1, ← h6]) (Or.inl rfl)]
  simp only [Cpu.setReg, if_true, Option.map_some, add_add g (show (4 : UInt32) + 4 = 8 from rfl)]

theorem GatewayAt.movt (hg : GatewayAt m g r) :
    (⟨g + 8, r.toUInt16.toUInt32, ip, lr, st⟩ : Cpu).step m =
      some (.next ⟨g + 12, r, ip, lr, st⟩) := by
  have h10 : g + 8 + 2 = g + 10 := add_add g rfl
  rw [step_movt (c := ⟨g + 8, r.toUInt16.toUInt32, ip, lr, st⟩) hg.movt0
    (by rw [← hg.movt1, ← h10]) (Or.inl rfl)]
  simp only [Cpu.setReg, if_true, Option.map_some, low_half, halves,
    add_add g (show (8 : UInt32) + 4 = 12 from rfl)]

theorem GatewayAt.blxIp (hg : GatewayAt m g r) :
    (⟨g + 12, x, ip, lr, st⟩ : Cpu).step m =
      some (.call ip ⟨ip &&& ~~~1, x, ip, (g + 14) ||| 1, st⟩) := by
  rw [step_blx (c := ⟨g + 12, x, ip, lr, st⟩) hg.blx, ← add_add g (show (12 : UInt32) + 2 = 14 from rfl)]

/-- The gateway calls what is in `ip`, and gives the caller its `r9` back. -/
theorem GatewayAt.toCall (hg : GatewayAt m g r) {c : Cpu} (hpc : c.pc = g) :
    c.toCall m 4 = some (c.ip, ⟨c.ip &&& ~~~1, r, c.ip, (g + 14) ||| 1,
      c.r9 :: c.lr :: c.stack⟩) :=
  (toCall_next (hg.push hpc)).trans
    ((toCall_next hg.movw).trans ((toCall_next hg.movt).trans (toCall_call hg.blxIp)))

end

/-- A stub and its gateway call the function with the module's RAM base. -/
theorem StubAt.callsWith {m : Mem} {s g : Addr} {f r : UInt32} (hs : StubAt m s f g)
    (hg : GatewayAt m g r) (hse : Even s) (hge : Even g) : CallsWith m (s ||| 1) f r := by
  intro c hc
  rw [even_or_one hse] at hc
  refine ⟨7, _, (hs.toCall hc 4).trans (hg.toCall rfl), rfl, fun d hd hst => ?_⟩
  have h14 : Even (g + 14) := hge.add rfl
  rw [even_or_one h14] at hd
  have h16 : g + 14 + 2 = g + 16 := add_add g rfl
  exact ⟨_, step_pop (by rw [hd, hg.pop0]) (by rw [hd, h16, hg.pop1]) hst, rfl, rfl, rfl⟩

end Udynlink.Deps
