import FlowTree.Proofs.Run.Strides

/-! A run in ticks. An operation on a call is cut into what it does one after another to the world: a
call goes out, its script goes on, and it falls asleep or ends. Ticks say less of scripts and timers
than strides do, and each of them adds at most one entry to the trace. -/

set_option autoImplicit false

namespace FlowTree

open Relation (ReflTransGen)

namespace Flight

inductive Tick (setting : Setting) : Phase → Flight → Flight → Prop where
  /-- A call goes out. Only a host that knows its name counts it. -/
  | send {place : Position} {invocation : Invocation} {w : World} {todo : Multiset Site}
    {calls : Multiset Call} (called : List String) (live : w.cancelled = false) :
    Tick setting .calm ⟨w, (place, invocation) ::ₘ todo, calls⟩
      ⟨{ Call.sent setting place invocation w with called }, todo,
        Call.fresh setting place invocation w ::ₘ calls⟩
  | stir {phase : Phase} {w w' : World} {todo : Multiset Site} {calls : Multiset Call}
    (even : phase ≠ .fall) (stirs : w.Stirs w') :
    Tick setting phase ⟨w, todo, calls⟩ ⟨w', todo, calls⟩
  | sleep {call next : Call} {w : World} {todo : Multiset Site} {calls : Multiset Call}
    (same : next.Same call) :
    Tick setting .calm ⟨w, todo, call ::ₘ calls⟩ ⟨w, todo, next ::ₘ calls⟩
  | complete {call : Call} {w : World} {todo : Multiset Site} {calls : Multiset Call}
    (output : String) (live : w.cancelled = false) :
    Tick setting .calm ⟨w, todo, call ::ₘ calls⟩ ⟨call.complete w output, todo, calls⟩
  | fail {phase : Phase} {call : Call} {w : World} {entry : Happening} {failure : Failure}
    {todo : Multiset Site} {calls : Multiset Call} (late : phase ≠ .calm)
    (fails : call.FailsBy entry failure) :
    Tick setting phase ⟨w, todo, call ::ₘ calls⟩ ⟨w.emit entry, todo, calls⟩
  | pass {w : World} {todo : Multiset Site} {calls : Multiset Call} (instant : Nat) :
    Tick setting .calm ⟨w, todo, calls⟩ ⟨{ w with clock := instant }, todo, calls⟩
  /-- The caller's token is cancelled while the run waits. -/
  | interrupt {w : World} {todo : Multiset Site} {calls : Multiset Call} (instant : Nat)
    (active : calls ≠ 0) :
    Tick setting .fall ⟨w, todo, calls⟩
      ⟨{ w with clock := instant, cancelled := true }, todo, calls⟩
  | skip {phase : Phase} {place : Position} {invocation : Invocation} {w : World}
    {todo : Multiset Site} {calls : Multiset Call} (late : phase ≠ .calm) :
    Tick setting phase ⟨w, (place, invocation) ::ₘ todo, calls⟩
      ⟨w.emit (.skipped place invocation.name), todo, calls⟩
  /-- What comes after a failed element of a sequence is not reached. -/
  | forget {w : World} {todo : Multiset Site} {calls : Multiset Call} (lost : Multiset Site) :
    Tick setting .drain ⟨w, lost + todo, calls⟩ ⟨w, todo, calls⟩
  | note {w : World} {entry : Happening} {todo : Multiset Site} {calls : Multiset Call}
    (notes : entry.Notes) : Tick setting .drain ⟨w, todo, calls⟩ ⟨w.emit entry, todo, calls⟩

def Calm (setting : Setting) : Flight → Flight → Prop := ReflTransGen (Tick setting .calm)

def Drains (setting : Setting) : Flight → Flight → Prop := ReflTransGen (Tick setting .drain)

def Falls (setting : Setting) (a b : Flight) : Prop :=
  ∃ before after, Calm setting a before ∧ Tick setting .fall before after ∧ Drains setting after b

def Leads (setting : Setting) : Progress → Flight → Flight → Prop
  | .ended (.error _) => Falls setting
  | _ => Calm setting

variable {setting : Setting} {a b : Flight}

theorem leads_iff {progress : Progress} :
    Leads setting progress a b ↔ Phase.Leads (Tick setting) progress a b := by
  cases progress with
  | waiting task => exact .rfl
  | ended outcome => cases outcome <;> exact .rfl

theorem Leads.keeps {motive : Flight → Prop}
    (tick : ∀ {phase a b}, Tick setting phase a b → motive a → motive b) {progress : Progress}
    (leads : Leads setting progress a b) (start : motive a) : motive b :=
  (leads_iff.1 leads).keeps tick start

end Flight

namespace Call

open Flight (Tick)
open Phase (Through)

variable {setting : Setting} {call : Call} {w mid w' : World} {state : Call ⊕ Outcome}

theorem Lands.ticks (lands : call.Lands w w' state) (todo : Multiset Site)
    (others : Multiset Call) :
    Through (Tick setting) (.ofCall state) ⟨w, todo, call ::ₘ others⟩
      ⟨w', todo, (Progress.ofCall state).calls + others⟩ := by
  cases lands with
  | asleep same live => exact .single (.sleep same)
  | completed output live =>
    have inFlight : (Progress.ofCall (.inr (.ok ()))).calls + others = others := zero_add others
    rw [inFlight]
    exact .single (.complete output live)
  | @failed entry failure fails =>
    have inFlight : (Progress.ofCall (.inr (.error failure))).calls + others = others :=
      zero_add others
    rw [inFlight]
    exact .single (.fail nofun fails)

end Call

namespace Flight

open Phase (Through)

variable {setting : Setting} {a b : Flight}

-- What the log and the observer are told apart from the trace makes no tick of its own.
theorem Move.ticks {phase : Phase} (move : Move setting phase a b) :
    Through (Tick setting) phase a b := by
  cases move with
  | start live started =>
    obtain ⟨called, mid, stirs, lands⟩ := Call.start_lands started
    exact .of_calm (.head (.send called live) (.single (.stir nofun stirs))) (lands.ticks _ _)
  | resume resumed =>
    obtain ⟨mid, stirs, lands⟩ := Call.resume_lands resumed
    exact .of_calm (.single (.stir nofun stirs)) (lands.ticks _ _)
  | unwind unwound =>
    obtain ⟨mid, entry, stirs, rfl, fails⟩ := Call.unwind_fails unwound
    exact .head (.stir nofun stirs) (.single (.fail nofun fails))
  | @skip _ place invocation w todo calls late =>
    have told : w.Stirs (w.log _) := .of_tells (.intro (w.skip place invocation.name).entries w.notices)
    cases phase with
    | calm => exact absurd rfl late
    | fall => exact ⟨_, _, .single (.stir nofun told), .skip nofun, .refl⟩
    | drain => exact .head (.stir nofun told) (.single (.skip nofun))
  | forget lost => exact .single (.forget lost)
  | note notes =>
    obtain ⟨mid, entry, tells, rfl, noted⟩ := notes.emits
    exact .head (.stir nofun (.of_tells tells)) (.single (.note noted))

theorem Stride.ticks {cancelAt : Option Nat} {phase : Phase}
    (stride : Stride setting cancelAt phase a b) : Through (Tick setting) phase a b := by
  cases stride with
  | move move => exact move.ticks
  | pass first early => exact .single (.pass _)
  | interrupt set first due => exact .single (.interrupt _ first.active)

end Flight

theorem Workflow.run_leads (workflow : Workflow) (setting : Setting) (cancellation : Cancellation)
    (called : List String) :
    ∃ w outcome, workflow.run setting cancellation called = close w outcome ∧
      Flight.Leads setting (.ended outcome)
        ⟨workflow.world called cancellation.before, workflow.root.part.todo [], 0⟩ ⟨w, 0, 0⟩ := by
  obtain ⟨w, outcome, eq, strides⟩ := workflow.run_strides setting cancellation called
  exact ⟨w, outcome, eq, Flight.leads_iff.2 (strides.refine Flight.Stride.ticks)⟩

end FlowTree
