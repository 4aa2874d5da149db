import Sargantana.GraduationList

namespace Sargantana.CsrInterface
open DracPkg GraduationList

variable {α : Type}

-- Of vleff_vl only matters whether it is zero.
structure Input where
  exception : Exception
  exceptionMemCommit : Exception
  memCommitStall : Bool
  vleffVl : Nat

def isVectorStore (t : InstrType) : Bool := t == .vse || t == .vsm || t == .vsse || t == .vsxe

def commitStoreOrAmo (e : Entry α) : Bool :=
  (e.instr.memType == .store || e.instr.memType == .amo) && !e.status.exValid &&
    !(decide (e.status.vl = 0) && isVectorStore e.instr.instrType)

def commitXcpt (i : Input) (e : Entry α) : Bool :=
  if !commitStoreOrAmo e then i.exception.valid && e.status.exValid else i.exceptionMemCommit.valid

-- The instruction needs the CSR file when it is the first one to commit.
def csrEna (i : Input) (e : Entry α) : Bool :=
  e.instr.valid && !e.status.exValid &&
    match e.instr.instrType with
    | .csrrw | .csrrs | .csrrc | .csrrwi | .csrrsi | .csrrci => true
    | .ecall | .ebreak | .uret | .sret | .mret | .wfi | .sfenceVma | .mrts => true
    | .vsetvli | .vsetvl | .vsetivli => true
    | .vleff => !decide (i.vleffVl = 0)
    | _ => false

-- The types that never commit second.
def commitsAlone : InstrType → Bool
  | .ecall | .sret | .mret | .uret | .wfi | .ebreak | .fence | .sfenceVma | .fenceI => true
  | .csrrw | .csrrs | .csrrc | .csrrwi | .csrrsi | .csrrci | .vsetvl | .vsetvli | .vsetivli => true
  | _ => false

def commit2Blocked (i : Input) (first : Entry α) : Option (Entry α) → Bool
  | none => true
  | some second => !first.instr.valid || first.status.exValid || csrEna i first || !second.instr.valid ||
      (second.instr.valid && (commitsAlone second.instr.instrType || second.instr.memType == .store ||
        second.instr.memType == .amo || second.instr.stallCsrFence)) ||
      (second.instr.valid && second.status.exValid)

-- retire_inst_o for the two instructions of the graduation list
def retireInst (i : Input) (presented : Fin 2 → Option (Entry α)) : Fin 2 → Bool :=
  match presented 0 with
  | none => fun _ => false
  | some first =>
      if first.instr.valid && commitXcpt i first then fun port => port == 0
      else if first.instr.valid && !commitXcpt i first && !i.memCommitStall && commit2Blocked i first (presented 1) then
        fun port => port == 0
      else if first.instr.valid && !commitXcpt i first && !i.memCommitStall && !commit2Blocked i first (presented 1) then
        fun _ => true
      else fun _ => false

theorem retires_presented (i : Input) (presented : Fin 2 → Option (Entry α)) (port : Fin 2)
    (retires : retireInst i presented port = true) :
    (presented port).isSome = true ∧ retireInst i presented 0 = true := by
  unfold retireInst at retires ⊢
  cases first : presented 0 with
  | none => simp [first] at retires
  | some e =>
      simp only [first] at retires ⊢
      split at retires
      · have zero : port = 0 := by simpa using retires
        rw [zero,first]
        simp_all
      · split at retires
        · have zero : port = 0 := by simpa using retires
          rw [zero,first]
          simp_all
        · split at retires
          · rename_i unblocked
            have second : (presented 1).isSome = true := by
              cases other : presented 1 with
              | none => simp [commit2Blocked,other] at unblocked
              | some _ => rfl
            obtain rfl | rfl : port = 0 ∨ port = 1 := by omega
            · exact ⟨by rw [first]; rfl,by simp_all⟩
            · exact ⟨second,by simp_all⟩
          · cases retires

end Sargantana.CsrInterface
