import Sargantana.Lib.StateMachine
import Mathlib.Data.List.Flatten

-- Buffers with a handshake on both sides. Items go in whole and may come out cut or glued.
namespace Sargantana.Handshake

open StateMachine

-- One clock cycle seen from outside: what is offered, and whether something is taken
structure Beat (ι : Type) where
  w : Bool
  wdata : ι
  wlast : Bool
  r : Bool

-- A side may answer in the cycle in which the other one moves.
structure Channel (σ ι ο : Type) where
  wok : σ → Bool → Bool
  rok : σ → Bool → Bool
  rdata : σ → ι → ο
  next : σ → Beat ι → σ

variable {σ ι ο β : Type} (ch : Channel σ ι ο)

def Channel.accepted (s : σ) (b : Beat ι) : List ι := if b.w && ch.wok s b.r then [b.wdata] else []

def Channel.delivered (s : σ) (b : Beat ι) : List ο := if b.r && ch.rok s b.w then [ch.rdata s b.wdata] else []

-- What is accepted in a cycle goes behind the contents and what is delivered leaves from their front.
structure Conserves (valid : σ → Prop) (allowed : σ → Beat ι → Prop) (contents : σ → List β) (cut : ι → List β)
    (glue : ο → List β) : Prop where
  next : ∀ s b, valid s → allowed s b → valid (ch.next s b)
  conserve : ∀ s b, valid s → allowed s b →
    contents s ++ (ch.accepted s b).flatMap cut = (ch.delivered s b).flatMap glue ++ contents (ch.next s b)

-- The buffer with a record of all that it has accepted and delivered
structure Recorded (σ ι ο : Type) where
  state : σ
  accepted : List ι
  delivered : List ο

def recorded (start : σ) (allowed : σ → Beat ι → Prop) : Machine (Recorded σ ι ο) (Beat ι) where
  initial := ⟨start,[],[]⟩
  allowed r b := allowed r.state b
  step r b := ⟨ch.next r.state b,r.accepted ++ ch.accepted r.state b,r.delivered ++ ch.delivered r.state b⟩

variable {ch} {valid : σ → Prop} {allowed : σ → Beat ι → Prop} {contents : σ → List β} {cut : ι → List β} {glue : ο → List β}

-- Over a whole run nothing is lost, made up or moved.
theorem conserved {start : σ} (law : Conserves ch valid allowed contents cut glue) (fresh : valid start)
    (clear : contents start = []) {r : Recorded σ ι ο} (reached : Reached (recorded ch start allowed) r) :
    valid r.state ∧ r.accepted.flatMap cut = r.delivered.flatMap glue ++ contents r.state := by
  refine reached.invariant (fun r => valid r.state ∧ r.accepted.flatMap cut = r.delivered.flatMap glue ++ contents r.state)
    ⟨fresh,by simp [recorded,clear]⟩ ?_
  rintro r b ⟨sound,log⟩ legal
  refine ⟨law.next _ _ sound legal,?_⟩
  have step := law.conserve _ _ sound legal
  simp only [recorded,List.flatMap_append]
  rw [log,List.append_assoc,step,List.append_assoc]

end Sargantana.Handshake
