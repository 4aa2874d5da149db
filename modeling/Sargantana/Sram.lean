import Mathlib.Logic.Function.Basic

-- The memories of the data cache (hpdcache_sram_sarg over sp_ram): one port, and a read that comes a cycle later
namespace Sargantana

structure Sram (κ α : Type) where
  mem : κ → α
  out : α

variable {κ α : Type} [DecidableEq κ]

-- A write leaves the output as it is. `mask` tells whether this part of the word is written.
def Sram.step (s : Sram κ α) (cs we mask : Bool) (addr : κ) (wdata : α) : Sram κ α where
  mem := if cs && we && mask then Function.update s.mem addr wdata else s.mem
  out := if cs && !we then s.mem addr else s.out

variable {s : Sram κ α} {mask : Bool} {addr : κ} {wdata : α}

@[simp] theorem Sram.step_off (we : Bool) : s.step false we mask addr wdata = s := by simp [Sram.step]

@[simp] theorem Sram.step_read_out : (s.step true false mask addr wdata).out = s.mem addr := rfl

@[simp] theorem Sram.step_read_mem (cs : Bool) : (s.step cs false mask addr wdata).mem = s.mem := by simp [Sram.step]

@[simp] theorem Sram.step_write_mem : (s.step true true true addr wdata).mem = Function.update s.mem addr wdata := by simp [Sram.step]

@[simp] theorem Sram.step_masked_mem (cs we : Bool) : (s.step cs we false addr wdata).mem = s.mem := by simp [Sram.step]

end Sargantana
