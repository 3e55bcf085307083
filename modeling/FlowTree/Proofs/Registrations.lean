import FlowTree.Proofs.ByteOrder
import FlowTree.Proofs.Histories
import FlowTree.Proofs.Maps
import FlowTree.Registry

/-! Registries and the registrations that their names stand for.

Which registration a name of a registry stands for is told from the history of the operations alone, and so
is the number of calls that went to it, through whichever registry. -/

set_option autoImplicit false

namespace FlowTree.Registries

namespace Operation

def isCopy : Operation → Bool
  | .copy _ => true
  | _ => false

def registration? : Operation → Option Work
  | .register _ _ work => some work
  | _ => none

end Operation

variable {n : Nat} {ops : List Operation} {op : Operation} {handle i : Nat} {name : String}

def fresh (n : Nat) : Registries where
  registries := List.replicate n NameMap.empty

def after (n : Nat) (ops : List Operation) : Registries := History.after step (fresh n) ops

def made (n : Nat) (ops : List Operation) : Nat := n + ops.countP Operation.isCopy

def registered (ops : List Operation) : List Work := ops.filterMap Operation.registration?

/-- The registration that a name of a registry stands for: the latest one there, or the one that it stood
for in the registry of which this is a copy. Registrations are numbered in order, and so are registries. -/
inductive Sees (n : Nat) : List Operation → Nat → String → Nat → Prop where
  | own {ops before rest : List Operation} {handle : Nat} {name : String} {work : Work}
      (split : ops = before ++ .register handle name work :: rest) (there : handle < made n before)
      (latest : ∀ other, .register handle name other ∉ rest) :
      Sees n ops handle name (registered before).length
  | inherited {ops before rest : List Operation} {original i : Nat} {name : String}
      (split : ops = before ++ .copy original :: rest) (sees : Sees n before original name i)
      (unreplaced : ∀ other, .register (made n before) name other ∉ rest) :
      Sees n ops (made n before) name i

/-- A name that was registered in a registry, or in the one of which this is a copy before that was made. -/
inductive Holds (n : Nat) : List Operation → Nat → String → Prop where
  | own {ops before rest : List Operation} {handle : Nat} {name : String} {work : Work}
      (split : ops = before ++ .register handle name work :: rest) (there : handle < made n before) :
      Holds n ops handle name
  | inherited {ops before rest : List Operation} {original : Nat} {name : String}
      (split : ops = before ++ .copy original :: rest) (holds : Holds n before original name) :
      Holds n ops (made n before) name

def Reaches (n : Nat) (before : List Operation) (i : Nat) (op : Operation) : Prop :=
  ∃ handle name inputs timeout, op = .invoke handle name inputs timeout ∧ Sees n before handle name i

open scoped Classical in
noncomputable def calls (n : Nat) (ops : List Operation) (i : Nat) : Nat :=
  (List.range ops.length).countP fun k => ∃ op ∈ ops[k]?, Reaches n (ops.take k) i op

theorem made_concat (n : Nat) (ops : List Operation) (op : Operation) :
    made n (ops ++ [op]) = made n ops + if op.isCopy then 1 else 0 := by
  rw [made, List.countP_append, List.countP_singleton, ← Nat.add_assoc, made]

theorem registered_concat (ops : List Operation) (op : Operation) :
    registered (ops ++ [op]) = registered ops ++ op.registration?.toList := by
  rw [registered, List.filterMap_append]
  cases entry : op.registration? <;> simp [List.filterMap, entry, registered]

open scoped Classical in
theorem calls_concat (n : Nat) (ops : List Operation) (op : Operation) (i : Nat) :
    calls n (ops ++ [op]) i = calls n ops i + if Reaches n ops i op then 1 else 0 := by
  have earlier : ∀ k ∈ List.range ops.length,
      decide (∃ op' ∈ (ops ++ [op])[k]?, Reaches n ((ops ++ [op]).take k) i op') =
        decide (∃ op' ∈ ops[k]?, Reaches n (ops.take k) i op') := by
    intro k mem
    have below := List.mem_range.1 mem
    rw [List.getElem?_append_left below, List.take_append_of_le_length below.le]
  rw [calls, List.length_append, List.length_singleton, List.range_succ, List.countP_append,
    List.countP_congr (fun k mem => by rw [earlier k mem]), List.countP_singleton]
  simp [calls]

theorem reaches_invoke {inputs : List String} {timeout : Duration} :
    Reaches n ops i (.invoke handle name inputs timeout) ↔ Sees n ops handle name i := by
  constructor
  · rintro ⟨_, _, _, _, same, sees⟩
    obtain ⟨rfl, rfl, rfl, rfl⟩ := Operation.invoke.inj same
    exact sees
  · intro sees
    exact ⟨handle, name, inputs, timeout, rfl, sees⟩

theorem calls_quiet (quiet : ¬ Reaches n ops i op) : calls n (ops ++ [op]) i = calls n ops i := by
  rw [calls_concat, if_neg quiet, Nat.add_zero]

theorem sees_concat :
    Sees n (ops ++ [op]) handle name i ↔
      (Sees n ops handle name i ∧ ∀ work, op ≠ .register handle name work) ∨
      (∃ work, op = .register handle name work ∧ handle < made n ops ∧ i = (registered ops).length) ∨
      ∃ original, op = .copy original ∧ handle = made n ops ∧ Sees n ops original name i := by
  have extend {p : Operation} {rest : List Operation} (before : List Operation) :
      (before ++ p :: rest) ++ [op] = before ++ p :: (rest ++ [op]) := by
    rw [List.append_assoc, List.cons_append]
  constructor
  · rintro (⟨whole, there, latest⟩ | ⟨whole, sees, unreplaced⟩)
    · obtain ⟨rfl, rfl, rfl⟩ | ⟨rest, rfl, split⟩ := split_concat whole
      · exact .inr (.inl ⟨_, rfl, there, rfl⟩)
      · simp only [List.mem_append, List.mem_singleton, not_or] at latest
        exact .inl ⟨.own split there fun work => (latest work).1, fun work => Ne.symm (latest work).2⟩
    · obtain ⟨rfl, rfl, rfl⟩ | ⟨rest, rfl, split⟩ := split_concat whole
      · exact .inr (.inr ⟨_, rfl, rfl, sees⟩)
      · simp only [List.mem_append, List.mem_singleton, not_or] at unreplaced
        exact .inl ⟨.inherited split sees fun work => (unreplaced work).1,
          fun work => Ne.symm (unreplaced work).2⟩
  · rintro (⟨⟨rfl, there, latest⟩ | ⟨rfl, sees, unreplaced⟩, other⟩ | ⟨work, rfl, there, rfl⟩ |
      ⟨original, rfl, rfl, sees⟩)
    · refine .own (extend _) there fun work => ?_
      simp only [List.mem_append, List.mem_singleton, not_or]
      exact ⟨latest work, Ne.symm (other work)⟩
    · refine .inherited (extend _) sees fun work => ?_
      simp only [List.mem_append, List.mem_singleton, not_or]
      exact ⟨unreplaced work, Ne.symm (other work)⟩
    · exact .own rfl there fun work => List.not_mem_nil
    · exact .inherited rfl sees fun work => List.not_mem_nil

theorem Sees.lt (sees : Sees n ops handle name i) : i < (registered ops).length := by
  induction ops using List.reverseRecOn generalizing handle with
  | nil => cases sees <;> simp at *
  | append_singleton ops op ih =>
    rw [registered_concat, List.length_append]
    rcases sees_concat.1 sees with ⟨earlier, -⟩ | ⟨work, rfl, -, rfl⟩ | ⟨original, -, -, earlier⟩
    · exact Nat.lt_add_right _ (ih earlier)
    · exact Nat.lt_succ_self _
    · exact Nat.lt_add_right _ (ih earlier)

theorem Sees.handle_lt (sees : Sees n ops handle name i) : handle < made n ops := by
  induction ops using List.reverseRecOn with
  | nil => cases sees <;> simp at *
  | append_singleton ops op ih =>
    rw [made_concat]
    rcases sees_concat.1 sees with ⟨earlier, -⟩ | ⟨work, -, there, -⟩ | ⟨original, rfl, rfl, -⟩
    · exact Nat.lt_add_right _ (ih earlier)
    · exact Nat.lt_add_right _ there
    · exact Nat.lt_succ_self _

/-- A registration replaces what its name has stood for in its registry, and nothing else. -/
theorem sees_register (other : Nat) (key : String) (work : Work) :
    Sees n (ops ++ [.register other key work]) handle name i ↔
      if handle = other ∧ name = key ∧ other < made n ops then i = (registered ops).length
      else Sees n ops handle name i := by
  rw [sees_concat]
  simp only [ne_eq, Operation.register.injEq, reduceCtorEq, false_and, exists_false, or_false]
  split
  · next here =>
    obtain ⟨rfl, rfl, there⟩ := here
    simp [there]
  · next apart =>
    constructor
    · rintro (⟨sees, -⟩ | ⟨_, ⟨rfl, rfl, -⟩, there, -⟩)
      · exact sees
      · exact absurd ⟨rfl, rfl, there⟩ apart
    · intro sees
      refine .inl ⟨sees, ?_⟩
      rintro _ ⟨rfl, rfl, -⟩
      exact apart ⟨rfl, rfl, sees.handle_lt⟩

theorem sees_copy (original : Nat) :
    Sees n (ops ++ [.copy original]) handle name i ↔
      if handle = made n ops then Sees n ops original name i else Sees n ops handle name i := by
  rw [sees_concat]
  simp only [ne_eq, reduceCtorEq, not_false_eq_true, implies_true, and_true, false_and, exists_false, false_or,
    Operation.copy.injEq]
  split
  · next last =>
    subst last
    have unmade : ¬ Sees n ops (made n ops) name i := fun sees => sees.handle_lt.false
    simp [unmade]
  · next apart => simp [apart]

theorem sees_quiet (registers : op.registration? = none) (copies : op.isCopy = false) :
    Sees n (ops ++ [op]) handle name i ↔ Sees n ops handle name i := by
  rw [sees_concat]
  cases op <;> simp_all [Operation.registration?, Operation.isCopy]

/-- A name that stands for some registration goes on to stand for one. -/
theorem Sees.append (sees : Sees n ops handle name i) (rest : List Operation) :
    ∃ j, Sees n (ops ++ rest) handle name j := by
  induction rest using List.reverseRecOn with
  | nil => exact ⟨i, (List.append_nil ops).symm ▸ sees⟩
  | append_singleton rest op ih =>
    obtain ⟨j, sees⟩ := ih
    rw [← List.append_assoc]
    by_cases replaced : ∃ work, op = .register handle name work
    · obtain ⟨work, rfl⟩ := replaced
      exact ⟨_, sees_concat.2 (.inr (.inl ⟨work, rfl, sees.handle_lt, rfl⟩))⟩
    · exact ⟨j, sees_concat.2 (.inl ⟨sees, fun work same => replaced ⟨work, same⟩⟩)⟩

theorem exists_sees : (∃ i, Sees n ops handle name i) ↔ Holds n ops handle name := by
  constructor
  · rintro ⟨i, sees⟩
    induction sees with
    | own split there latest => exact .own split there
    | inherited split sees unreplaced ih => exact .inherited split ih
  · intro holds
    induction holds with
    | own split there =>
      rw [split, List.append_cons]
      exact (Sees.own rfl there fun _ => List.not_mem_nil).append _
    | inherited split holds ih =>
      obtain ⟨i, sees⟩ := ih
      rw [split, List.append_cons]
      exact (Sees.inherited rfl sees fun _ => List.not_mem_nil).append _

theorem calls_unregistered (beyond : (registered ops).length ≤ i) : calls n ops i = 0 := by
  induction ops using List.reverseRecOn with
  | nil => rfl
  | append_singleton ops op ih =>
    rw [registered_concat, List.length_append] at beyond
    have earlier : (registered ops).length ≤ i := le_of_add_le_left beyond
    rw [calls_quiet, ih earlier]
    rintro ⟨handle, name, inputs, timeout, -, sees⟩
    exact absurd sees.lt (not_lt.2 earlier)

/-- The state tells the history: what names stand for, and the calls that each registration has had. -/
structure Represents (n : Nat) (ops : List Operation) (r : Registries) : Prop where
  length_registries : r.registries.length = made n ops
  sees_iff : ∀ handle name i, Sees n ops handle name i ↔ (r.registry handle).get? name = some i
  units_eq : r.units = (registered ops).mapIdx fun i work => ⟨work, calls n ops i⟩

theorem Represents.init (n : Nat) : Represents n [] (fresh n) where
  length_registries := List.length_replicate
  sees_iff handle name i := by
    have empty : (fresh n).registry handle = NameMap.empty := by
      simp only [registry, fresh, List.getD, List.getElem?_replicate]
      split <;> rfl
    rw [empty, NameMap.get?_empty]
    constructor
    · intro sees
      exact absurd sees.lt (Nat.not_lt_zero _)
    · simp
  units_eq := rfl

variable {r : Registries}

theorem registry_register (r : Registries) (handle : Nat) (name : String) (work : Work) (other : Nat) :
    (r.register handle name work).registry other =
      if handle = other ∧ handle < r.registries.length then
        (r.registry handle).insert name r.units.length
      else r.registry other := by
  simp only [registry, register, List.getD, List.getElem?_set]
  split
  · next same =>
    subst same
    by_cases there : handle < r.registries.length <;> simp [there]
  · next apart => simp [apart]

theorem registry_copy (r : Registries) (original other : Nat) :
    (r.copy original).1.registry other =
      if other = r.registries.length then r.registry original else r.registry other := by
  simp only [registry, copy, List.getD, List.getElem?_append]
  split
  · next before => simp [before.ne]
  · next notBefore =>
    split
    · next last => simp [last]
    · next apart =>
      have beyond : r.registries.length < other := by omega
      simp [List.getElem?_eq_none_iff.2 beyond.le, Nat.sub_ne_zero_of_lt beyond]

namespace Represents

variable (repr : Represents n ops r)
include repr

theorem get?_units (i : Nat) :
    r.units[i]? = ((registered ops)[i]?).map fun work => ⟨work, calls n ops i⟩ := by
  rw [repr.units_eq, List.getElem?_mapIdx]

theorem length_units : r.units.length = (registered ops).length := by
  rw [repr.units_eq, List.length_mapIdx]

theorem invoke_absent (absent : ¬ Holds n ops handle name) (inputs : List String)
    (timeout : Duration) : r.invoke handle name inputs timeout = (r, .error (.notRegistered name)) := by
  have missing : (r.registry handle).get? name = none := by
    rw [Option.eq_none_iff_forall_ne_some]
    exact fun i found => absent (exists_sees.1 ⟨i, (repr.sees_iff handle name i).2 found⟩)
  rw [invoke, missing]
  rfl

theorem invoke_sees (sees : Sees n ops handle name i) (inputs : List String) (timeout : Duration) :
    ∃ work, (registered ops)[i]? = some work ∧
      let ended := Call.alone name inputs timeout (work.script (calls n ops i) inputs) r.clock
      r.invoke handle name inputs timeout =
        ({ r with units := r.units.set i ⟨work, calls n ops i + 1⟩, clock := ended.1 }, ended.2) := by
  obtain ⟨work, known⟩ : ∃ work, (registered ops)[i]? = some work :=
    ⟨_, List.getElem?_eq_getElem sees.lt⟩
  refine ⟨work, known, ?_⟩
  rw [invoke, (repr.sees_iff handle name i).1 sees, Option.bind_eq_bind, Option.bind_some, repr.get?_units,
    known]
  rfl

/-- An operation that is no call keeps the units, with one more where it registers one. -/
theorem units_quiet (quiet : ∀ i, ¬ Reaches n ops i op) :
    (registered (ops ++ [op])).mapIdx (fun i work => (⟨work, calls n (ops ++ [op]) i⟩ : Shared)) =
      r.units ++ op.registration?.toList.map (⟨·, 0⟩) := by
  simp only [calls_quiet (quiet _), registered_concat]
  rw [repr.units_eq]
  cases op.registration? with
  | none => simp
  | some work =>
    rw [Option.toList_some, List.mapIdx_concat, calls_unregistered le_rfl]
    rfl

theorem units_invoke (sees : Sees n ops handle name i) {inputs : List String} {timeout : Duration} {work : Work}
    (known : (registered ops)[i]? = some work) :
    (registered (ops ++ [.invoke handle name inputs timeout])).mapIdx
        (fun k work => (⟨work, calls n (ops ++ [.invoke handle name inputs timeout]) k⟩ : Shared)) =
      r.units.set i ⟨work, calls n ops i + 1⟩ := by
  have same {k : Nat} : Reaches n ops k (.invoke handle name inputs timeout) ↔ k = i := by
    rw [reaches_invoke, repr.sees_iff, (repr.sees_iff handle name i).1 sees, Option.some.injEq, eq_comm]
  have kept : registered (ops ++ [.invoke handle name inputs timeout]) = registered ops :=
    (registered_concat _ _).trans (List.append_nil _)
  refine List.ext_getElem? fun k => ?_
  rw [kept, List.getElem?_mapIdx, List.getElem?_set, repr.get?_units, calls_concat]
  by_cases here : i = k
  · subst here
    rw [if_pos (same.2 rfl), if_pos rfl, if_pos (repr.length_units ▸ sees.lt), known]
    rfl
  · rw [if_neg (mt same.1 (Ne.symm here)), if_neg here, Nat.add_zero]

theorem step_units (op : Operation) :
    (r.step op).1.units = (registered (ops ++ [op])).mapIdx fun i work => ⟨work, calls n (ops ++ [op]) i⟩ := by
  cases op with
  | invoke handle name inputs timeout =>
    by_cases holds : Holds n ops handle name
    · obtain ⟨i, sees⟩ := exists_sees.2 holds
      obtain ⟨work, known, invoked⟩ := repr.invoke_sees sees inputs timeout
      rw [repr.units_invoke sees known]
      exact congrArg (fun ended => ended.1.units) invoked
    · rw [repr.units_quiet fun i reaches => holds (exists_sees.1 ⟨i, reaches_invoke.1 reaches⟩)]
      have kept := congrArg (fun ended => ended.1.units) (repr.invoke_absent holds inputs timeout)
      exact kept.trans (List.append_nil _).symm
  | register handle name work =>
    rw [repr.units_quiet (by simp [Reaches])]
    rfl
  | _ =>
    rw [repr.units_quiet (by simp [Reaches])]
    exact (List.append_nil _).symm

theorem step_registries (op : Operation) :
    (r.step op).1.registries.length = made n (ops ++ [op]) := by
  rw [made_concat, ← repr.length_registries]
  cases op with
  | register handle name work => exact List.length_set
  | copy original => exact List.length_append
  | invoke handle name inputs timeout =>
    simp only [Registries.step, invoke]
    split <;> rfl
  | _ => rfl

theorem sees_register_iff (other : Nat) (key : String) (work : Work) :
    Sees n (ops ++ [.register other key work]) handle name i ↔
      ((r.register other key work).registry handle).get? name = some i := by
  rw [registry_register, repr.length_registries, repr.length_units]
  by_cases there : other = handle ∧ other < made n ops
  · obtain ⟨rfl, there⟩ := there
    rw [if_pos ⟨rfl, there⟩, NameMap.get?_insert, sees_register]
    by_cases same : name = key
    · rw [if_pos ⟨rfl, same, there⟩, if_pos same, Option.some.injEq, eq_comm]
    · rw [if_neg fun replaced => same replaced.2.1, if_neg same, repr.sees_iff]
  · rw [if_neg there, sees_register, if_neg fun replaced => there ⟨replaced.1.symm, replaced.2.2⟩,
      repr.sees_iff]

theorem sees_copy_iff (original : Nat) :
    Sees n (ops ++ [.copy original]) handle name i ↔
      ((r.copy original).1.registry handle).get? name = some i := by
  rw [registry_copy, repr.length_registries, sees_copy]
  split <;> exact repr.sees_iff _ name i

theorem step_sees (op : Operation) (handle : Nat) (name : String) (i : Nat) :
    Sees n (ops ++ [op]) handle name i ↔ ((r.step op).1.registry handle).get? name = some i := by
  cases op with
  | register other key work => exact repr.sees_register_iff other key work
  | copy original => exact repr.sees_copy_iff original
  | invoke other key inputs timeout =>
    have kept : (r.step (.invoke other key inputs timeout)).1.registries = r.registries := by
      simp only [Registries.step, invoke]
      split <;> rfl
    rw [registry, kept, sees_quiet rfl rfl]
    exact repr.sees_iff handle name i
  | _ => exact (sees_quiet rfl rfl).trans (repr.sees_iff handle name i)

theorem step (op : Operation) : Represents n (ops ++ [op]) (r.step op).1 where
  length_registries := repr.step_registries op
  sees_iff := repr.step_sees op
  units_eq := repr.step_units op

end Represents

theorem Represents.run (n : Nat) (ops : List Operation) : Represents n ops (after n ops) := by
  induction ops using List.reverseRecOn with
  | nil => exact .init n
  | append_singleton ops op ih =>
    rw [after, History.after_concat]
    exact ih.step op

theorem run_eq_replies (r : Registries) (ops : List Operation) :
    run r ops = History.replies Registries.step r ops := by
  induction ops generalizing r with
  | nil => rfl
  | cons op rest ih => exact congrArg _ (ih _)

structure Lists (n : Nat) (ops : List Operation) (handle : Nat) (names : List String) : Prop where
  ascending : names.Pairwise fun left right => Text.bytes left < Text.bytes right
  mem_iff : ∀ name, name ∈ names ↔ Holds n ops handle name

def Answers (n : Nat) (before : List Operation) : Operation → Reply → Prop
  | .register handle name work, reply => ∃ names, reply = .names names ∧
      Lists n (before ++ [.register handle name work]) handle names
  | .contains handle name, reply => ∃ flag, reply = .flag flag ∧ (flag ↔ Holds n before handle name)
  | .names handle, reply => ∃ names, reply = .names names ∧ Lists n before handle names
  | .describe handle, reply => ∃ names, Lists n before handle names ∧
      reply = .description ("Registry \x7b handlers: " ++ Text.quotedList names ++ " \x7d")
  | .copy _, reply => reply = .handle (made n before)
  | .invoke handle name inputs timeout, reply =>
      let clock := (after n before).clock
      (reply = .call (.error (.notRegistered name)) clock ∧ ¬ Holds n before handle name) ∨
      ∃ i work, Sees n before handle name i ∧ (registered before)[i]? = some work ∧
        let (clock, answer) := Call.alone name inputs timeout (work.script (calls n before i) inputs) clock
        reply = .call answer clock

namespace Represents

variable (repr : Represents n ops r)
include repr

theorem lists (handle : Nat) : Lists n ops handle (r.names handle) where
  ascending := by
    refine List.pairwise_map.2 ((r.registry handle).ascending.imp fun below => ?_)
    exact (Text.lt_iff_bytes_lt _ _).1 below
  mem_iff name := by
    rw [names, ← NameMap.isSome_get?, Option.isSome_iff_exists, ← exists_sees]
    simp only [repr.sees_iff]

end Represents

theorem answers (n : Nat) (ops : List Operation) (op : Operation) :
    Answers n ops op ((after n ops).step op).2 := by
  have repr := Represents.run n ops
  cases op with
  | register handle name work => exact ⟨_, rfl, (repr.step _).lists handle⟩
  | contains handle name =>
    refine ⟨_, rfl, ?_⟩
    rw [contains, Option.isSome_iff_exists, ← exists_sees]
    simp only [repr.sees_iff]
  | names handle => exact ⟨_, rfl, repr.lists handle⟩
  | describe handle => exact ⟨_, repr.lists handle, rfl⟩
  | copy original => exact congrArg Reply.handle repr.length_registries
  | invoke handle name inputs timeout =>
    by_cases holds : Holds n ops handle name
    · obtain ⟨i, sees⟩ := exists_sees.2 holds
      obtain ⟨work, known, invoked⟩ := repr.invoke_sees sees inputs timeout
      refine .inr ⟨i, work, sees, known, ?_⟩
      simp only [step, invoked]
    · refine .inl ⟨?_, holds⟩
      simp only [step, repr.invoke_absent holds]

/-- A registration changes no call but those of its name in its registry. -/
theorem invoke_after_register (n : Nat) (ops : List Operation) {other : Nat} {key : String}
    (apart : ¬ (handle = other ∧ name = key)) (work : Work) (inputs : List String) (timeout : Duration) :
    let called := (after n ops).invoke handle name inputs timeout
    let called' := (after n (ops ++ [.register other key work])).invoke handle name inputs timeout
    called'.2 = called.2 ∧ called'.1.clock = called.1.clock := by
  intro called called'
  have repr := Represents.run n ops
  have repr' := Represents.run n (ops ++ [.register other key work])
  have clock : (after n (ops ++ [.register other key work])).clock = (after n ops).clock := by
    rw [after, History.after_concat]
    rfl
  have same (i : Nat) : Sees n (ops ++ [.register other key work]) handle name i ↔ Sees n ops handle name i := by
    rw [sees_register, if_neg fun replaced => apart ⟨replaced.1, replaced.2.1⟩]
  by_cases holds : Holds n ops handle name
  · obtain ⟨i, sees⟩ := exists_sees.2 holds
    obtain ⟨work, known, invoked⟩ := repr.invoke_sees sees inputs timeout
    obtain ⟨work', known', invoked'⟩ := repr'.invoke_sees ((same i).2 sees) inputs timeout
    rw [registered_concat, List.getElem?_append_left sees.lt] at known'
    obtain rfl := Option.some.inj (known.symm.trans known')
    rw [calls_quiet (by simp [Reaches]), clock] at invoked'
    simp only [called, called', invoked, invoked', and_self]
  · have absent : ¬ Holds n (ops ++ [.register other key work]) handle name := by
      simpa only [← exists_sees, same] using holds
    simp only [called, called', repr.invoke_absent holds, repr'.invoke_absent absent, clock, and_self]

theorem script_eq_getElem? {scripts : List Script} (some : scripts ≠ []) (earlier : Nat)
    (inputs : List String) :
    scripts[min earlier (scripts.length - 1)]? = .some ((Work.scripted scripts).script earlier inputs) := by
  have positive := List.length_pos_iff.2 some
  simp only [Work.script]
  by_cases below : earlier < scripts.length
  · rw [Nat.min_eq_left (by omega), List.getElem?_eq_getElem below, Option.getD_some]
  · rw [Nat.min_eq_right (by omega), List.getElem?_eq_none_iff.2 (not_lt.1 below), Option.getD_none,
      List.getLastD_eq_getLast?, List.getLast?_eq_getElem?, List.getElem?_eq_getElem (by omega)]
    rfl

/-- Registries are as good as maps from names to shared units: what is replied to any operation follows from
the registrations that names stand for, and from the calls that went to each of them. -/
theorem registries_share_units (n : Nat) (before : List Operation) :
    (∀ op rest, ∃ reply, (run (fresh n) (before ++ op :: rest))[before.length]? = some reply ∧
      Answers n before op reply) ∧
    -- A name stands for one registration at most.
    (∀ handle name i j, Sees n before handle name i → Sees n before handle name j → i = j) ∧
    -- A registration replaces an earlier one in its registry, and changes no call of anything else.
    (∀ handle name work,
      (∀ other key i, Sees n (before ++ [.register handle name work]) other key i ↔
        if other = handle ∧ key = name ∧ handle < made n before then i = (registered before).length
        else Sees n before other key i) ∧
      ∀ other key inputs timeout, ¬ (other = handle ∧ key = name) →
        let called := (after n before).invoke other key inputs timeout
        let called' := (after n (before ++ [.register handle name work])).invoke other key inputs timeout
        called'.2 = called.2 ∧ called'.1.clock = called.1.clock) ∧
    -- A copy shares the registrations of its original, and with them the counts.
    (∀ original other name i, Sees n (before ++ [.copy original]) other name i ↔
      if other = made n before then Sees n before original name i else Sees n before other name i) ∧
    -- A call of an absent name changes nothing, and any other one is counted where it goes.
    (∀ handle name inputs timeout,
      let call := Operation.invoke handle name inputs timeout
      (¬ Holds n before handle name →
        after n (before ++ [call]) = after n before ∧
        ∀ i, calls n (before ++ [call]) i = calls n before i) ∧
      ∀ i, Sees n before handle name i →
        ∀ j, calls n (before ++ [call]) j = calls n before j + if j = i then 1 else 0) ∧
    -- The k-th call has the k-th script, or the last one.
    (∀ scripts earlier inputs, scripts ≠ [] →
      scripts[min earlier (scripts.length - 1)]? = some ((Work.scripted scripts).script earlier inputs)) := by
  have repr := Represents.run n before
  have unique : ∀ handle name i j, Sees n before handle name i → Sees n before handle name j → i = j := by
    intro handle name i j left right
    rw [repr.sees_iff] at left right
    exact Option.some.inj (left.symm.trans right)
  refine ⟨fun op rest => ⟨_, ?_, answers n before op⟩, unique,
    fun handle name work => ⟨fun other key i => ?_, ?_⟩, fun original other name i => sees_copy original,
    fun handle name inputs timeout => ⟨fun absent => ⟨?_, ?_⟩, ?_⟩,
    fun scripts earlier inputs some => script_eq_getElem? some earlier inputs⟩
  · rw [run_eq_replies, History.replies_split]
    rfl
  · exact sees_register handle name work
  · intro other key inputs timeout apart
    exact invoke_after_register n before apart work inputs timeout
  · rw [after, History.after_concat]
    exact congrArg Prod.fst (repr.invoke_absent absent inputs timeout)
  · intro i
    exact calls_quiet fun reaches => absent (exists_sees.1 ⟨i, reaches_invoke.1 reaches⟩)
  · intro i sees j
    have reached : Reaches n before j (.invoke handle name inputs timeout) ↔ j = i := by
      rw [reaches_invoke]
      exact ⟨fun sees' => unique handle name j i sees' sees, fun same => same ▸ sees⟩
    rw [calls_concat]
    simp only [reached]

def numbering : Work := .scripted [[.give "1"], [.give "2"]]

/-- The calls of a unit that is registered and then copied are counted together, whichever registry they
go through. -/
theorem registries_share_units_copied :
    let shared : List Operation := [.register 0 "f" numbering, .copy 0]
    let call (handle : Nat) : Operation := .invoke handle "f" [] (.ofMillis 5)
    Sees 1 shared 0 "f" 0 ∧ Sees 1 shared 1 "f" 0 ∧
      calls 1 (shared ++ [call 1]) 0 = calls 1 shared 0 + 1 ∧
      ∃ reply, (run (fresh 1) (shared ++ [call 1] ++ [call 0]))[3]? = some reply ∧
        Answers 1 (shared ++ [call 1]) (call 0) reply := by
  intro shared call
  have own (rest : List Operation) (latest : ∀ other, .register 0 "f" other ∉ rest) :
      Sees 1 (.register 0 "f" numbering :: rest) 0 "f" 0 :=
    @Sees.own 1 _ [] rest 0 "f" numbering rfl (by decide) latest
  obtain ⟨-, -, -, copies, -⟩ := registries_share_units 1 [.register 0 "f" numbering]
  have copied : Sees 1 shared 1 "f" 0 := (copies 0 1 "f" 0).2 (own [] (by simp))
  obtain ⟨-, -, -, -, counts, -⟩ := registries_share_units 1 shared
  exact ⟨own [.copy 0] (by simp), copied, (counts 1 "f" [] (.ofMillis 5)).2 0 copied 0,
    (registries_share_units 1 (shared ++ [call 1])).1 (call 0) []⟩

end FlowTree.Registries
