import Gittest.Lib.BigEndian
import Mathlib.Logic.Function.Basic

/-!
# Classic packet filters

Programs for the accumulator machine that decides about packets: numeric opcodes, jumps forward and
relative to the next instruction, and loads that reject a packet which they lie outside of. There are
no loads at negative offsets. A program that has been checked ends on every packet.
-/

namespace Bpf

/-! ### Instructions -/

structure SockFilter where
  code : UInt16
  jt : UInt8
  jf : UInt8
  k : UInt32

inductive Size where
  | word
  | half
  | byte

def Size.bytes : Size → Nat
  | .word => 4
  | .half => 2
  | .byte => 1

theorem Size.bytes_le (size : Size) : size.bytes ≤ 4 := by
  cases size
  · decide
  · decide
  · decide

inductive Operand where
  | k (value : UInt32)
  | x

inductive AluOp where
  | add
  | sub
  | mul
  | div
  | or
  | and
  | lsh
  | rsh
  | mod
  | xor

inductive Cond where
  | jeq
  | jgt
  | jge
  | jset

/-- Cells of the scratch memory. -/
abbrev Cell := Fin 16

inductive Insn where
  | ldAbs (size : Size) (k : UInt32)
  | ldInd (size : Size) (k : UInt32)
  | ldImm (k : UInt32)
  | ldLen
  | ldMem (cell : Cell)
  | ldxImm (k : UInt32)
  | ldxLen
  | ldxMem (cell : Cell)
  | ldxMsh (k : UInt32)
  | st (cell : Cell)
  | stx (cell : Cell)
  | alu (op : AluOp) (operand : Operand)
  | neg
  | ja (off : Nat)
  | jump (cond : Cond) (operand : Operand) (jt jf : Nat)
  | retK (k : UInt32)
  | retA
  | tax
  | txa

def withCell (insn : Cell → Insn) (k : UInt32) : Option Insn :=
  if h : k.toNat < 16 then some (insn ⟨k.toNat, h⟩) else none

/-- Divisions by 0 and shifts by more than there are bits are no instructions. -/
def aluK (op : AluOp) (k : UInt32) : Option Insn :=
  match op with
  | .div | .mod => if k = 0 then none else some (.alu op (.k k))
  | .lsh | .rsh => if 32 ≤ k then none else some (.alu op (.k k))
  | _ => some (.alu op (.k k))

def decode (f : SockFilter) : Option Insn :=
  match f.code.toNat with
  | 0x20 => some (.ldAbs .word f.k)
  | 0x28 => some (.ldAbs .half f.k)
  | 0x30 => some (.ldAbs .byte f.k)
  | 0x40 => some (.ldInd .word f.k)
  | 0x48 => some (.ldInd .half f.k)
  | 0x50 => some (.ldInd .byte f.k)
  | 0x00 => some (.ldImm f.k)
  | 0x80 => some .ldLen
  | 0x60 => withCell .ldMem f.k
  | 0x01 => some (.ldxImm f.k)
  | 0x81 => some .ldxLen
  | 0x61 => withCell .ldxMem f.k
  | 0xb1 => some (.ldxMsh f.k)
  | 0x02 => withCell .st f.k
  | 0x03 => withCell .stx f.k
  | 0x04 => aluK .add f.k
  | 0x0c => some (.alu .add .x)
  | 0x14 => aluK .sub f.k
  | 0x1c => some (.alu .sub .x)
  | 0x24 => aluK .mul f.k
  | 0x2c => some (.alu .mul .x)
  | 0x34 => aluK .div f.k
  | 0x3c => some (.alu .div .x)
  | 0x44 => aluK .or f.k
  | 0x4c => some (.alu .or .x)
  | 0x54 => aluK .and f.k
  | 0x5c => some (.alu .and .x)
  | 0x64 => aluK .lsh f.k
  | 0x6c => some (.alu .lsh .x)
  | 0x74 => aluK .rsh f.k
  | 0x7c => some (.alu .rsh .x)
  | 0x84 => some .neg
  | 0x94 => aluK .mod f.k
  | 0x9c => some (.alu .mod .x)
  | 0xa4 => aluK .xor f.k
  | 0xac => some (.alu .xor .x)
  | 0x05 => some (.ja f.k.toNat)
  | 0x15 => some (.jump .jeq (.k f.k) f.jt.toNat f.jf.toNat)
  | 0x1d => some (.jump .jeq .x f.jt.toNat f.jf.toNat)
  | 0x25 => some (.jump .jgt (.k f.k) f.jt.toNat f.jf.toNat)
  | 0x2d => some (.jump .jgt .x f.jt.toNat f.jf.toNat)
  | 0x35 => some (.jump .jge (.k f.k) f.jt.toNat f.jf.toNat)
  | 0x3d => some (.jump .jge .x f.jt.toNat f.jf.toNat)
  | 0x45 => some (.jump .jset (.k f.k) f.jt.toNat f.jf.toNat)
  | 0x4d => some (.jump .jset .x f.jt.toNat f.jf.toNat)
  | 0x06 => some (.retK f.k)
  | 0x16 => some .retA
  | 0x07 => some .tax
  | 0x87 => some .txa
  | _ => none

/-! ### Execution -/

structure State where
  pc : Nat
  a : UInt32
  x : UInt32
  mem : Cell → UInt32

def State.start : State := { pc := 0, a := 0, x := 0, mem := fun _ => 0 }

def State.jumpTo (s : State) (off : Nat) : State := { s with pc := s.pc + 1 + off }

def State.setA (s : State) (a : UInt32) : State := { s with pc := s.pc + 1, a := a }

def State.setX (s : State) (x : UInt32) : State := { s with pc := s.pc + 1, x := x }

def State.store (s : State) (cell : Cell) (value : UInt32) : State :=
  { s with pc := s.pc + 1, mem := Function.update s.mem cell value }

def Operand.value (s : State) : Operand → UInt32
  | .k value => value
  | .x => s.x

def Cond.Holds (a b : UInt32) : Cond → Prop
  | .jeq => a = b
  | .jgt => b < a
  | .jge => b ≤ a
  | .jset => a &&& b ≠ 0

instance (a b : UInt32) (cond : Cond) : Decidable (cond.Holds a b) :=
  match cond with
  | .jeq => inferInstanceAs (Decidable (a = b))
  | .jgt => inferInstanceAs (Decidable (b < a))
  | .jge => inferInstanceAs (Decidable (b ≤ a))
  | .jset => inferInstanceAs (Decidable (a &&& b ≠ 0))

/-- The accumulator afterwards; none for a division by 0. -/
def AluOp.apply (a b : UInt32) : AluOp → Option UInt32
  | .add => some (a + b)
  | .sub => some (a - b)
  | .mul => some (a * b)
  | .div => if b = 0 then none else some (a / b)
  | .or => some (a ||| b)
  | .and => some (a &&& b)
  | .lsh => some (a <<< b)
  | .rsh => some (a >>> b)
  | .mod => if b = 0 then none else some (a % b)
  | .xor => some (a ^^^ b)

def load (packet : List UInt8) (offset : Nat) (size : Size) : Option UInt32 :=
  if offset + size.bytes ≤ packet.length then
    some (UInt32.ofNat (BigEndian.field packet offset size.bytes))
  else
    none

inductive Next where
  | goOn (s : State)
  | ret (value : UInt32)

/-- Without a value the packet is rejected. -/
def Next.given (value : Option UInt32) (next : UInt32 → State) : Next :=
  match value with
  | some v => .goOn (next v)
  | none => .ret 0

def Insn.exec (packet : List UInt8) (s : State) : Insn → Next
  | .ldAbs size k => .given (load packet k.toNat size) s.setA
  | .ldInd size k => .given (load packet (s.x + k).toNat size) s.setA
  | .ldImm k => .goOn (s.setA k)
  | .ldLen => .goOn (s.setA (UInt32.ofNat packet.length))
  | .ldMem cell => .goOn (s.setA (s.mem cell))
  | .ldxImm k => .goOn (s.setX k)
  | .ldxLen => .goOn (s.setX (UInt32.ofNat packet.length))
  | .ldxMem cell => .goOn (s.setX (s.mem cell))
  | .ldxMsh k => .given (load packet k.toNat .byte) fun v => s.setX (4 * (v &&& 0xf))
  | .st cell => .goOn (s.store cell s.a)
  | .stx cell => .goOn (s.store cell s.x)
  | .alu op operand => .given (op.apply s.a (operand.value s)) s.setA
  | .neg => .goOn (s.setA (-s.a))
  | .ja off => .goOn (s.jumpTo off)
  | .jump cond operand jt jf =>
    .goOn (s.jumpTo (if cond.Holds s.a (operand.value s) then jt else jf))
  | .retK k => .ret k
  | .retA => .ret s.a
  | .tax => .goOn (s.setX s.a)
  | .txa => .goOn (s.setA s.x)

def run (code : List Insn) (packet : List UInt8) : Nat → State → Option UInt32
  | 0, _ => none
  | fuel + 1, s => do
    let insn ← code[s.pc]?
    match insn.exec packet s with
    | .goOn s => run code packet fuel s
    | .ret value => some value

def Ends (code : List Insn) (packet : List UInt8) (s : State) (value : UInt32) : Prop :=
  ∃ fuel, run code packet fuel s = some value

section Runs

variable {code : List Insn} {packet : List UInt8} {s t : State} {insn : Insn} {value value' : UInt32}

theorem run_goOn (hget : code[s.pc]? = some insn) (hexec : insn.exec packet s = .goOn t)
    (fuel : Nat) : run code packet (fuel + 1) s = run code packet fuel t := by
  simp only [run, hget, hexec, Option.bind_eq_bind, Option.bind_some]

theorem run_ret (hget : code[s.pc]? = some insn) (hexec : insn.exec packet s = .ret value)
    (fuel : Nat) : run code packet (fuel + 1) s = some value := by
  simp only [run, hget, hexec, Option.bind_eq_bind, Option.bind_some]

theorem run_succ {fuel : Nat} (hrun : run code packet fuel s = some value) :
    run code packet (fuel + 1) s = some value := by
  induction fuel generalizing s with
  | zero => cases hrun
  | succ fuel ih =>
    cases hget : code[s.pc]? with
    | none =>
      rw [run, hget] at hrun
      cases hrun
    | some insn =>
      cases hexec : insn.exec packet s with
      | goOn t =>
        rw [run_goOn hget hexec] at hrun ⊢
        exact ih hrun
      | ret ended =>
        rw [run_ret hget hexec] at hrun ⊢
        exact hrun

theorem run_add {fuel : Nat} (hrun : run code packet fuel s = some value) (more : Nat) :
    run code packet (fuel + more) s = some value := by
  induction more with
  | zero => exact hrun
  | succ more ih => exact run_succ ih

theorem Ends.goOn (hget : code[s.pc]? = some insn) (hexec : insn.exec packet s = .goOn t)
    (hends : Ends code packet t value) : Ends code packet s value := by
  obtain ⟨fuel, hrun⟩ := hends
  exact ⟨fuel + 1, (run_goOn hget hexec fuel).trans hrun⟩

theorem Ends.ret (hget : code[s.pc]? = some insn) (hexec : insn.exec packet s = .ret value) :
    Ends code packet s value :=
  ⟨1, run_ret hget hexec 0⟩

theorem Ends.unique (hends : Ends code packet s value) (hends' : Ends code packet s value') :
    value = value' := by
  obtain ⟨fuel, hrun⟩ := hends
  obtain ⟨fuel', hrun'⟩ := hends'
  have hmore := run_add hrun fuel'
  rw [Nat.add_comm, run_add hrun' fuel] at hmore
  exact (Option.some.inj hmore).symm

end Runs

/-! ### What a program decides -/

/-- The program ends, and accepts exactly if `P`. -/
def Decides (code : List Insn) (packet : List UInt8) (s : State) (P : Prop) : Prop :=
  ∃ value, Ends code packet s value ∧ (value ≠ 0 ↔ P)

namespace Decides

variable {code : List Insn} {packet : List UInt8} {s t : State} {insn : Insn} {pc : Nat} {P Q : Prop}

theorem congr (hdecides : Decides code packet s P) (hiff : P ↔ Q) : Decides code packet s Q := by
  obtain ⟨value, hends, hvalue⟩ := hdecides
  exact ⟨value, hends, hvalue.trans hiff⟩

theorem ret {value : UInt32} (hpc : s.pc = pc) (hget : code[pc]? = some insn)
    (hexec : insn.exec packet s = .ret value) (hvalue : value ≠ 0 ↔ P) :
    Decides code packet s P := by
  rw [← hpc] at hget
  exact ⟨value, Ends.ret hget hexec, hvalue⟩

theorem goOn (hpc : s.pc = pc) (hget : code[pc]? = some insn)
    (hexec : insn.exec packet s = .goOn t) (hnext : Decides code packet t P) :
    Decides code packet s P := by
  rw [← hpc] at hget
  obtain ⟨value, hends, hvalue⟩ := hnext
  exact ⟨value, Ends.goOn hget hexec hends, hvalue⟩

theorem jump {cond : Cond} {operand : Operand} {jt jf : Nat} (hpc : s.pc = pc)
    (hget : code[pc]? = some (.jump cond operand jt jf))
    (hthen : cond.Holds s.a (operand.value s) → Decides code packet (s.jumpTo jt) P)
    (helse : ¬cond.Holds s.a (operand.value s) → Decides code packet (s.jumpTo jf) P) :
    Decides code packet s P := by
  apply goOn hpc hget rfl
  by_cases hcond : cond.Holds s.a (operand.value s)
  · rw [if_pos hcond]
    exact hthen hcond
  · rw [if_neg hcond]
    exact helse hcond

/-- A load is within the packet, or rejects it. -/
theorem load {offset : Nat} {size : Size} {next : UInt32 → State} (hpc : s.pc = pc)
    (hget : code[pc]? = some insn)
    (hexec : insn.exec packet s = .given (load packet offset size) next)
    (hwithin : ∀ v, offset + size.bytes ≤ packet.length →
      v.toNat = BigEndian.field packet offset size.bytes → Decides code packet (next v) P)
    (hbeyond : packet.length < offset + size.bytes → ¬P) : Decides code packet s P := by
  by_cases hfits : offset + size.bytes ≤ packet.length
  · rw [Bpf.load, if_pos hfits] at hexec
    apply goOn hpc hget hexec
    apply hwithin _ hfits
    apply UInt32.toNat_ofNat_of_lt'
    calc BigEndian.field packet offset size.bytes < 256 ^ size.bytes := BigEndian.field_lt _ _ _
      _ ≤ 256 ^ 4 := Nat.pow_le_pow_right (by omega) size.bytes_le
      _ = UInt32.size := by norm_num
  · rw [Bpf.load, if_neg hfits] at hexec
    exact ret hpc hget hexec (iff_of_false (not_not.mpr rfl) (hbeyond (Nat.not_le.mp hfits)))

end Decides

/-! ### Checked programs -/

/-- How far behind the next instruction an instruction may go on. -/
def Insn.offsets : Insn → List Nat
  | .ja off => [off]
  | .jump _ _ jt jf => [jt, jf]
  | .retK _ | .retA => []
  | _ => [0]

def Checked (code : List Insn) : Prop :=
  ∀ i : Fin code.length, ∀ off ∈ (code.get i).offsets, i + 1 + off < code.length

instance (code : List Insn) : Decidable (Checked code) :=
  inferInstanceAs (Decidable (∀ i : Fin code.length, ∀ off ∈ (code.get i).offsets,
    i + 1 + off < code.length))

theorem Next.pc_of_given {given : Option UInt32} {next : UInt32 → State} {t : State} {pc : Nat}
    (hgoOn : Next.given given next = .goOn t) (hnext : ∀ v, (next v).pc = pc) : t.pc = pc := by
  cases given with
  | none => cases hgoOn
  | some v =>
    cases hgoOn
    exact hnext v

/-- An instruction goes on behind itself. -/
theorem Insn.exec_pc {packet : List UInt8} {s t : State} {insn : Insn}
    (hexec : insn.exec packet s = .goOn t) : ∃ off ∈ insn.offsets, t.pc = s.pc + 1 + off := by
  cases insn with
  | ja off =>
    cases hexec
    exact ⟨off, List.mem_singleton_self off, rfl⟩
  | jump cond operand jt jf =>
    cases hexec
    refine ⟨_, ?_, rfl⟩
    split
    · exact List.mem_cons_self
    · exact List.mem_cons_of_mem jt (List.mem_singleton_self jf)
  | retK k => cases hexec
  | retA => cases hexec
  | ldAbs size k => exact ⟨0, List.mem_singleton_self 0, Next.pc_of_given hexec fun _ => rfl⟩
  | ldInd size k => exact ⟨0, List.mem_singleton_self 0, Next.pc_of_given hexec fun _ => rfl⟩
  | ldxMsh k => exact ⟨0, List.mem_singleton_self 0, Next.pc_of_given hexec fun _ => rfl⟩
  | alu op operand => exact ⟨0, List.mem_singleton_self 0, Next.pc_of_given hexec fun _ => rfl⟩
  | _ =>
    cases hexec
    exact ⟨0, List.mem_singleton_self 0, rfl⟩

/-- Each step of a checked program leaves less of it to run. -/
theorem Checked.run_isSome {code : List Insn} (hchecked : Checked code) (packet : List UInt8) (fuel : Nat)
    (s : State) (hpc : s.pc < code.length) (hfuel : code.length ≤ s.pc + fuel) :
    (run code packet fuel s).isSome := by
  induction fuel generalizing s with
  | zero => omega
  | succ fuel ih =>
    have hget : code[s.pc]? = some (code.get ⟨s.pc, hpc⟩) := List.getElem?_eq_getElem hpc
    cases hexec : (code.get ⟨s.pc, hpc⟩).exec packet s with
    | goOn t =>
      obtain ⟨off, hoff, ht⟩ := Insn.exec_pc hexec
      have hlt : s.pc + 1 + off < code.length := hchecked ⟨s.pc, hpc⟩ off hoff
      rw [run_goOn hget hexec]
      exact ih t (by omega) (by omega)
    | ret value =>
      rw [run_ret hget hexec]
      rfl

/-! ### Filters -/

/-- What the kernel accepts as a program. -/
structure Filter where
  code : List Insn
  nonempty : 0 < code.length
  checked : Checked code

def maxInsns : Nat := 4096

def attach (program : List SockFilter) : Option Filter := do
  let code ← program.mapM decode
  if h : 0 < code.length ∧ Checked code then
    if code.length ≤ maxInsns then some ⟨code, h.1, h.2⟩ else none
  else
    none

/-- How much of the packet is passed on. -/
def Filter.run (filter : Filter) (packet : List UInt8) : UInt32 :=
  (Bpf.run filter.code packet filter.code.length State.start).get
    (filter.checked.run_isSome packet filter.code.length State.start filter.nonempty (Nat.le_add_left _ _))

theorem Filter.ends (filter : Filter) (packet : List UInt8) :
    Ends filter.code packet State.start (filter.run packet) :=
  ⟨filter.code.length, (Option.some_get _).symm⟩

/-- The run of a filter accepts what its program decides. -/
theorem Filter.run_iff {filter : Filter} {packet : List UInt8} {P : Prop}
    (hdecides : Decides filter.code packet State.start P) : filter.run packet ≠ 0 ↔ P := by
  obtain ⟨value, hends, hvalue⟩ := hdecides
  rwa [(filter.ends packet).unique hends]

end Bpf
