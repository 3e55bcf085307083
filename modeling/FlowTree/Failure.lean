import FlowTree.Duration
import FlowTree.Text.Quoted

/-! How calls and whole statements fail, and how a parallel block joins the failures of its
branches. -/

set_option autoImplicit false

namespace FlowTree

/-- Why a call of a unit of work gives no output. -/
inductive CallError where
  | failed (message : String)
  | timeout (after : Duration)
  | notRegistered (name : String)
  deriving DecidableEq

namespace CallError

def message : CallError → String
  | .failed message => message
  | .timeout after => "timed out after " ++ after.text
  | .notRegistered name => "no unit of work registered as '" ++ name ++ "'"

def description : CallError → String
  | .failed message => "Failed \x7b message: " ++ Text.quoted message ++ " \x7d"
  | .timeout after => "Timeout \x7b timeout: " ++ after.text ++ " \x7d"
  | .notRegistered name => "NotRegistered \x7b name: " ++ Text.quoted name ++ " \x7d"

end CallError

abbrev Answer := Except CallError String

inductive Failure where
  /-- Its scope was cancelled. -/
  | cancelled
  | invocation (name : String) (source : CallError)
  /-- Several branches of a block failed. -/
  | parallel (failures : List Failure)

namespace Failure

mutual

def same : Failure → Failure → Bool
  | .cancelled, .cancelled => true
  | .invocation a e, .invocation b f => decide (a = b) && decide (e = f)
  | .parallel as, .parallel bs => sameAll as bs
  | _, _ => false

def sameAll : List Failure → List Failure → Bool
  | [], [] => true
  | a :: as, b :: bs => same a b && sameAll as bs
  | _, _ => false

end

/-- Induction in which a joint failure has the hypothesis for each of its parts. -/
@[induction_eliminator]
theorem induction {motive : Failure → Prop} (cancelled : motive .cancelled)
    (invocation : ∀ name source, motive (.invocation name source))
    (parallel : ∀ failures, (∀ f ∈ failures, motive f) → motive (.parallel failures))
    (failure : Failure) : motive failure :=
  @Failure.rec motive (fun parts => ∀ f ∈ parts, motive f)
    cancelled invocation parallel (fun _ mem => nomatch mem)
    (fun _ _ head tail f mem => by
      rcases List.mem_cons.1 mem with rfl | mem
      · exact head
      · exact tail f mem)
    failure

theorem sameAll_iff {as bs : List Failure}
    (parts : ∀ a ∈ as, ∀ b, same a b = true ↔ a = b) : sameAll as bs = true ↔ as = bs := by
  induction as generalizing bs with
  | nil => cases bs <;> simp [sameAll]
  | cons a as ih =>
    cases bs with
    | nil => simp [sameAll]
    | cons b bs =>
      simp [sameAll, parts a List.mem_cons_self,
        ih fun s mem => parts s (List.mem_cons_of_mem _ mem)]

theorem same_iff (a b : Failure) : same a b = true ↔ a = b := by
  induction a generalizing b with
  | cancelled => cases b <;> simp [same]
  | invocation name source => cases b <;> simp [same]
  | parallel failures ih => cases b <;> simp [same, sameAll_iff ih]

instance : DecidableEq Failure := fun a b => decidable_of_iff _ (same_iff a b)

def isCancelled : Failure → Bool
  | .cancelled => true
  | _ => false

mutual

def message : Failure → String
  | .cancelled => "execution cancelled"
  | .invocation name source => "invocation '" ++ name ++ "' failed: " ++ source.message
  | .parallel failures =>
    Text.decimal failures.length ++ " parallel branches failed: " ++
      String.intercalate "; " (messages failures)

def messages : List Failure → List String
  | [] => []
  | f :: rest => message f :: messages rest

end

mutual

def description : Failure → String
  | .cancelled => "Cancelled"
  | .invocation name source =>
    "Invocation \x7b name: " ++ Text.quoted name ++ ", source: " ++ source.description ++ " \x7d"
  | .parallel failures =>
    "Parallel \x7b failures: [" ++ String.intercalate ", " (descriptions failures) ++ "] \x7d"

def descriptions : List Failure → List String
  | [] => []
  | f :: rest => description f :: descriptions rest

end

def source? : Failure → Option CallError
  | .invocation _ source => some source
  | _ => none

end Failure

abbrev Outcome := Except Failure Unit

/-- How a parallel block reports the failures of its branches. -/
inductive FailureMode where
  /-- The first failure stands for all. -/
  | firstObserved
  /-- Every failure that is no cancellation is reported, in the order observed. -/
  | aggregate
  deriving DecidableEq

namespace FailureMode

instance : Inhabited FailureMode := ⟨.firstObserved⟩

/-- Joins the failures of one block, leaving out cancellations. When there is nothing else, every
branch was cancelled from outside the block. -/
def join (failures : List Failure) : Failure :=
  match failures.filter (!·.isCancelled) with
  | [] => .cancelled
  | [only] => only
  | several => .parallel several

def settle (mode : FailureMode) : List Failure → Outcome
  | [] => .ok ()
  | first :: later =>
    match mode with
    | .firstObserved => .error first
    | .aggregate => .error (join (first :: later))

end FailureMode

end FlowTree
